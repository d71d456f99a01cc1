/-
# `MP4.DirMap` — a directory is a bounded map

The purpose of a directory is a partial map from a kind and the first nine
characters of a name to a sector, with room for as many keys as the table has
entries.  `Represents dir m` says that the table of `dir` holds the map `m`:

    lookup      the first entry in use with a key has its sector
    good        no two entries in use have one key
    count       `count` is the number of entries in use

`Add`, `Remove` and `Find` then give the answers of the map and end in a table
that holds the map after the same operation, and writing the table to its file
and reading it back, into the same object or a new one, changes nothing
(`Call.refines`).  So does every sequence of calls (`directory_refines_map`).
-/
import EroikoBlue.Lib.BoundedMap
import EroikoBlue.MP4.DirWalk

namespace EroikoBlue.MP4

open Bytes

namespace Directory

open DirectoryEntry Search

/-- Kind, and the first nine characters of the name. -/
abbrev Name : Type := Bool × List Byte

/-! ## Looking up after a change -/

theorem find?_occupy {table : List DirectoryEntry}
    {name : List Byte} {isDir : Bool} {s : Int}
    {e : DirectoryEntry} (hnew : table.find? (hasKey (keyOf name isDir)) = none)
    (hfree : table.find? (!·.inUse) = some e) (k : Name) :
    ((updateFirst (!·.inUse) (fun e => e.occupy name s isDir) table).find?
        (hasKey k)).map (·.sector) =
      if k = keyOf name isDir then some s
          else (table.find? (hasKey k)).map (·.sector) := by
  induction table with
  | nil => cases hfree
  | cons a table ih =>
      rw [updateFirst]
      cases huse : a.inUse with
      | false =>
          have hold : hasKey k a = false := by simp [hasKey, huse]
          have hocc : hasKey k (a.occupy name s isDir) =
              (keyOf name isDir == k) := by
            rw [hasKey, occupy_key]
            rfl
          rw [if_pos (by simp), List.find?_cons, hocc, List.find?_cons, hold]
          by_cases hk : k = keyOf name isDir
          · rw [if_pos hk, hk, beq_self_eq_true]
            rfl
          · rw [if_neg hk, beq_eq_false_iff_ne.mpr (Ne.symm hk)]
      | true =>
          rw [List.find?_cons_of_neg (by simp [huse])] at hfree
          have hother : hasKey (keyOf name isDir) a = false := by
            by_contra hyes
            rw [List.find?_cons_of_pos (by simpa using hyes)] at hnew
            cases hnew
          rw [List.find?_cons_of_neg (by simp [hother])] at hnew
          rw [if_neg (by simp), List.find?_cons, List.find?_cons]
          cases hhere : hasKey k a with
          | true =>
              have hk : k ≠ keyOf name isDir := by
                rintro rfl
                rw [hother] at hhere
                cases hhere
              rw [if_neg hk]
          | false => exact ih hnew hfree

theorem find?_vacate {table : List DirectoryEntry} (hgood : GoodTable table)
    (k k' : Name) :
    (updateFirst (hasKey k) vacate table).find? (hasKey k') =
      if k' = k then none else table.find? (hasKey k') := by
  by_cases hk : k' = k
  · rw [if_pos hk, hk]
    exact hgood.find?_vacate k
  · rw [if_neg hk]
    clear hgood
    induction table with
    | nil => rfl
    | cons a table ih =>
        rw [updateFirst]
        cases hhere : hasKey k a with
        | true =>
            have hout : hasKey k' a = false := by
              have hkey : a.key = k := by
                simpa using (Bool.and_eq_true_iff.mp hhere).2
              simp [hasKey, hkey, Ne.symm hk]
            have hout' : hasKey k' a.vacate = false := by simp [hasKey, vacate]
            rw [if_pos rfl, List.find?_cons, hout', List.find?_cons, hout]
        | false =>
            rw [if_neg Bool.false_ne_true, List.find?_cons, List.find?_cons, ih]

theorem length_keys (table : List DirectoryEntry) :
    (keys table).length = table.countP (·.inUse) := by
  rw [keys, List.length_map, List.countP_eq_length_filter]

/-! ## The map of a table -/

variable {size : Nat}

/-- The table of the directory holds the map. -/
structure Represents (dir : Directory)
    (m : BoundedMap Name Int size) : Prop where
  length : dir.table.length = size
  good : GoodTable dir.table
  lookup : ∀ k, m.lookup k = (dir.table.find? (hasKey k)).map (·.sector)
  count : dir.count = dir.table.countP (·.inUse)

namespace Represents
variable {dir : Directory} {m : BoundedMap Name Int size}

theorem lookup_isNone (h : dir.Represents m) (k : Name) :
    m.lookup k = none ↔ dir.table.find? (hasKey k) = none := by
  rw [h.lookup, Option.map_eq_none_iff]

theorem card (h : dir.Represents m) :
    m.dom.card = dir.table.countP (·.inUse) := by
  have hdom : m.dom = (keys dir.table).toFinset := by
    ext k
    rw [m.mem_dom, List.mem_toFinset, ← not_iff_not, Bool.not_eq_true,
      Option.isSome_eq_false_iff,
      Option.isNone_iff_eq_none, h.lookup_isNone, find?_hasKey_isNone]
  rw [hdom, List.toFinset_card_of_nodup h.good.keys, length_keys]

/-- There is a free entry as long as there is room for a key. -/
theorem free_iff (h : dir.Represents m) : dir.table.find? (!·.inUse) = none ↔
    ¬ m.dom.card < size := by
  have hle : dir.table.countP (·.inUse) ≤ dir.table.length :=
    List.countP_le_length
  rw [h.card, ← h.length, Nat.not_lt, List.find?_eq_none]
  constructor
  · intro hall
    refine Nat.le_of_eq (List.countP_eq_length.mpr fun e he => ?_).symm
    simpa using hall e he
  · intro hfull e he
    have := List.countP_eq_length.mp (Nat.le_antisymm hle hfull) e he
    simpa using this

end Represents

theorem represents_new (size : Nat) :
    (Directory.new size).Represents
      (BoundedMap.empty : BoundedMap Name Int size) where
  length := List.length_replicate
  good := GoodTable.blank size
  lookup := by
    intro k
    have hnone : (Directory.new size).table.find? (hasKey k) = none := by
      refine List.find?_eq_none.mpr fun e he => ?_
      rw [(List.mem_replicate.mp he).2]
      simp [hasKey, DirectoryEntry.blank]
    rw [hnone]
    rfl
  count := by
    have hzero : (Directory.new size).table.countP (·.inUse) = 0 := by
      refine List.countP_eq_zero.mpr fun e he => ?_
      rw [(List.mem_replicate.mp he).2]
      decide
    rw [hzero]
    rfl

/-! ## The operations -/

theorem add_present {dir : Directory} {name : List Byte} {isDir : Bool}
    (s : Int) (hold : dir.table.find? (hasKey (keyOf name isDir)) ≠ none) :
    dir.add name s isDir = (false, dir) := by
  rw [add]
  cases hidx : dir.findIndex name isDir with
  | none => exact absurd ((findIndex_isNone dir name isDir).mp hidx) hold
  | some i => rfl

theorem add_absent {dir : Directory}
    {name : List Byte} {isDir : Bool} {e : DirectoryEntry} (s : Int)
    (hnew : dir.table.find? (hasKey (keyOf name isDir)) = none)
    (hfree : dir.table.find? (!·.inUse) = some e) :
    dir.add name s isDir = (true, {
      table := updateFirst (!·.inUse) (fun e => e.occupy name s isDir) dir.table
      count := dir.count + 1 }) := by
  rw [add, (findIndex_isNone dir name isDir).mpr hnew]
  cases hidx : dir.table.findIdx? (!·.inUse) with
  | none =>
      rw [(findIdx?_isNone _).mp hidx] at hfree
      cases hfree
  | some i =>
      simp only
      rw [modify_findIdx? hidx]

theorem remove_absent {dir : Directory} {name : List Byte}
    {isDir : Bool} (hnew : dir.table.find? (hasKey (keyOf name isDir)) = none) :
    dir.remove name isDir = (false, dir) := by
  rw [remove, (findIndex_isNone dir name isDir).mpr hnew]

theorem remove_present {dir : Directory} {name : List Byte} {isDir : Bool}
    (hold : dir.table.find? (hasKey (keyOf name isDir)) ≠ none) :
    dir.remove name isDir = (true, {
      table := updateFirst (hasKey (keyOf name isDir)) vacate dir.table
      count := dir.count - 1 }) := by
  rw [remove]
  cases hidx : dir.findIndex name isDir with
  | none => exact absurd ((findIndex_isNone dir name isDir).mp hidx) hold
  | some i =>
      rw [findIndex, named_eq_hasKey] at hidx
      simp only
      rw [modify_findIdx? hidx]

theorem add_refused (dir : Directory) (name : List Byte) (s : Int)
    (isDir : Bool) :
    (dir.add name s isDir).1 = false → (dir.add name s isDir).2 = dir := by
  rw [add]
  split
  · exact fun _ => rfl
  split
  · exact fun _ => rfl
  · rintro ⟨⟩

theorem remove_refused (dir : Directory) (name : List Byte) (isDir : Bool) :
    (dir.remove name isDir).1 = false → (dir.remove name isDir).2 = dir := by
  rw [remove]
  split
  · exact fun _ => rfl
  · rintro ⟨⟩

namespace Represents
variable {dir : Directory} {m : BoundedMap Name Int size}

theorem find_eq (h : dir.Represents m) (name : List Byte) (isDir : Bool) :
    dir.find name isDir = (m.lookup (keyOf name isDir)).getD (-1) := by
  rw [Directory.find_eq, h.lookup]
  cases dir.table.find? (hasKey (keyOf name isDir)) <;> rfl

theorem add (h : dir.Represents m) (name : List Byte) {s : Int} (hs : IsInt32 s)
    (isDir : Bool) :
    (dir.add name s isDir).1 = (m.add (keyOf name isDir) s).1 ∧
      (dir.add name s isDir).2.Represents (m.add (keyOf name isDir) s).2 := by
  by_cases hok : m.lookup (keyOf name isDir) = none ∧ m.dom.card < size
  · have hnew := (h.lookup_isNone _).mp hok.1
    obtain ⟨e, hfree⟩ := Option.ne_none_iff_exists'.mp fun hnone =>
      h.free_iff.mp hnone hok.2
    have hperm := (keys_occupy name s isDir hfree).length_eq
    rw [length_keys, List.length_cons, length_keys] at hperm
    rw [add_absent s hnew hfree, BoundedMap.add_of_room hok.1 hok.2]
    refine ⟨rfl, ?_, h.good.occupy hs hnew hfree, fun k => ?_, ?_⟩
    · rw [length_updateFirst, h.length]
    · rw [find?_occupy hnew hfree, BoundedMap.insert, ← h.lookup]
      exact Function.update_apply ..
    · rw [h.count, hperm]
      rfl
  · have hrefused : dir.add name s isDir = (false, dir) := by
      by_cases hold : dir.table.find? (hasKey (keyOf name isDir)) = none
      · have hfull := h.free_iff.mpr fun hroom =>
          hok ⟨(h.lookup_isNone _).mpr hold, hroom⟩
        rw [Directory.add, (findIndex_isNone dir name isDir).mpr hold]
        simp only
        rw [(findIdx?_isNone _).mpr hfull]
      · exact add_present s hold
    rw [hrefused, BoundedMap.add_of_not hok]
    exact ⟨rfl, h⟩

theorem remove (h : dir.Represents m) (name : List Byte) (isDir : Bool) :
    (dir.remove name isDir).1 = (m.remove (keyOf name isDir)).1 ∧
      (dir.remove name isDir).2.Represents (m.remove (keyOf name isDir)).2 := by
  by_cases hnew : dir.table.find? (hasKey (keyOf name isDir)) = none
  · rw [remove_absent hnew,
      BoundedMap.remove_of_none ((h.lookup_isNone _).mpr hnew)]
    exact ⟨rfl, h⟩
  · have hmem : keyOf name isDir ∈ keys dir.table := by
      by_contra hout
      exact hnew (find?_hasKey_isNone.mpr hout)
    have hsome : (m.lookup (keyOf name isDir)).isSome :=
      Option.isSome_iff_ne_none.mpr (mt (h.lookup_isNone _).mp hnew)
    have hlen : (keys
        (updateFirst (hasKey (keyOf name isDir)) vacate dir.table)).length =
        (keys dir.table).length - 1 := by
      rw [keys_vacate, List.length_erase_of_mem hmem]
    have hpos := List.length_pos_of_mem hmem
    rw [length_keys, length_keys] at hlen
    rw [length_keys] at hpos
    rw [remove_present hnew, BoundedMap.remove_of_some hsome]
    refine ⟨rfl, ?_, h.good.vacate _, fun k => ?_, ?_⟩
    · rw [length_updateFirst, h.length]
    · rw [find?_vacate h.good]
      refine (Function.update_apply ..).trans ?_
      rw [h.lookup]
      split <;> rfl
    · show dir.count - 1 = _
      rw [h.count, hlen]
      omega

end Represents

/-! ## Through the file -/

/-- A table that is written to its file is what any directory object of its size
reads from there, with the count made anew. -/
theorem writeBack_fetchFrom {t : HdrTree}
    (ht : t.Backed) {file : OpenFile} (hfile : file.hdr = t.header)
    {dir : Directory} (hgood : ∀ e ∈ dir.table, IsInt32 e.sector)
    (hroom : dir.table.length * DirectoryEntry.size ≤ t.bytes) (d : Disk) :
    ∃ d', dir.writeBack file d = .ok () d' ∧
      ∀ {object : Directory}, object.table.length = dir.table.length →
      object.fetchFrom file d' = .ok (ofTable dir.table) := by
  have hint := ht.bytes_int32
  have hlen := length_encodeTable dir.table
  obtain ⟨d', hrun, -, hcontent⟩ := HdrTree.writeAt_eq ht hfile d
    (n := dir.table.length * DirectoryEntry.size) (p := 0)
      (Nat.le_of_eq hlen.symm) (by omega)
  refine ⟨d', ?_, fun {object} hobject => ?_⟩
  · rw [writeBack, show (0 : Int) = (0 : Nat) from rfl, Outcome.bind_of_ok hrun]
    rfl
  · have hread := HdrTree.readAt_eq ht hfile d'
      (n := dir.table.length * DirectoryEntry.size) (p := 0) (by omega)
    have hslice : ((t.content d').drop 0).take
        (dir.table.length * DirectoryEntry.size) = encodeTable dir.table := by
      rw [hcontent, List.drop_zero, Nat.sub_zero, Nat.min_eq_left hroom,
        List.take_of_length_le (Nat.le_of_eq hlen), blit, List.take_zero,
          List.nil_append, List.take_left' hlen]
    have hdecode := decodeTable_encodeTable hgood
    rw [hslice] at hread
    rw [fetchFrom, hobject, show (0 : Int) = (0 : Nat) from rfl, hread,
      Outcome.ok_bind,
      blit_zero (by rw [length_encodeTable, length_encodeTable, hobject]),
        hdecode]
    rfl

/-! ## Sequences of calls -/

/-- A call on a directory that is open; `reload` writes it back and fetches it
again, and `reopen` fetches it into a new object. -/
inductive Call where
  | add (name : List Byte) (newSector : Int) (isDir : Bool)
  | remove (name : List Byte) (isDir : Bool)
  | find (name : List Byte) (isDir : Bool)
  | reload
  | reopen

inductive Answer where
  | done (success : Bool)
  | sector (sector : Int)
  | fetched
  deriving DecidableEq, Repr

namespace Call

/-- A sector number is an `int`. -/
def Valid : Call → Prop
  | .add _ newSector _ => IsInt32 newSector
  | _ => True

def run (file : OpenFile) (dir : Directory) : Call → FsM (Answer × Directory)
  | .add name newSector isDir =>
      pure (.done (dir.add name newSector isDir).1,
        (dir.add name newSector isDir).2)
  | .remove name isDir =>
      pure (.done (dir.remove name isDir).1, (dir.remove name isDir).2)
  | .find name isDir => pure (.sector (dir.find name isDir), dir)
  | .reload => do
    dir.writeBack file
    let dir ← Outcome.reads (dir.fetchFrom file)
    pure (.fetched, dir)
  | .reopen => do
    dir.writeBack file
    let dir ← Outcome.reads ((Directory.new dir.table.length).fetchFrom file)
    pure (.fetched, dir)

/-- The call on the map. -/
def spec (m : BoundedMap Name Int size) : Call →
    Answer × BoundedMap Name Int size
  | .add name newSector isDir =>
      (.done (m.add (keyOf name isDir) newSector).1,
        (m.add (keyOf name isDir) newSector).2)
  | .remove name isDir =>
      (.done (m.remove (keyOf name isDir)).1, (m.remove (keyOf name isDir)).2)
  | .find name isDir => (.sector ((m.lookup (keyOf name isDir)).getD (-1)), m)
  | .reload => (.fetched, m)
  | .reopen => (.fetched, m)

end Call

theorem Represents.ofTable {dir : Directory} {m : BoundedMap Name Int size}
    (h : dir.Represents m) :
    (ofTable dir.table).Represents m where
  length := h.length
  good := h.good
  lookup := h.lookup
  count := rfl

section Runs
variable {t : HdrTree} {file : OpenFile}

/-- One call: the answer of the map, and the map after it. -/
theorem Call.refines (ht : t.Backed) (hfile : file.hdr = t.header)
    (hroom : size * DirectoryEntry.size ≤ t.bytes) {dir : Directory}
    {m : BoundedMap Name Int size} (h : dir.Represents m) {call : Call}
    (hvalid : call.Valid) (d : Disk) :
    ∃ dir' d', call.run file dir d = .ok ((call.spec m).1, dir') d' ∧
      dir'.Represents (call.spec m).2 := by
  cases call with
  | add name newSector isDir =>
      obtain ⟨hanswer, hnext⟩ := h.add name hvalid isDir
      refine ⟨_, d, ?_, hnext⟩
      rw [Call.spec, ← hanswer]
      rfl
  | remove name isDir =>
      obtain ⟨hanswer, hnext⟩ := h.remove name isDir
      refine ⟨_, d, ?_, hnext⟩
      rw [Call.spec, ← hanswer]
      rfl
  | find name isDir =>
      refine ⟨dir, d, ?_, h⟩
      rw [Call.spec, ← h.find_eq]
      rfl
  | reload =>
      obtain ⟨d', hwrite, hfetch⟩ :=
        writeBack_fetchFrom ht hfile h.good.sectors (h.length.symm ▸ hroom) d
      have hread : Outcome.reads (dir.fetchFrom file) d' = .ok _ d' :=
        Outcome.reads_of_ok (hfetch rfl)
      refine ⟨_, d', ?_, h.ofTable⟩
      rw [Call.run, Outcome.bind_of_ok hwrite, Outcome.bind_of_ok hread]
      rfl
  | reopen =>
      obtain ⟨d', hwrite, hfetch⟩ :=
        writeBack_fetchFrom ht hfile h.good.sectors (h.length.symm ▸ hroom) d
      have hread : Outcome.reads ((Directory.new dir.table.length).fetchFrom
          file) d' = .ok _ d' :=
        Outcome.reads_of_ok (hfetch List.length_replicate)
      refine ⟨_, d', ?_, h.ofTable⟩
      rw [Call.run, Outcome.bind_of_ok hwrite, Outcome.bind_of_ok hread]
      rfl

/-- A sequence of calls, with the answers. -/
def runAll (file : OpenFile) : List Call → Directory →
    FsM (List Answer × Directory)
  | [], dir => pure ([], dir)
  | call :: calls, dir => do
    let (answer, dir) ← call.run file dir
    let (answers, dir) ← runAll file calls dir
    pure (answer :: answers, dir)

def specAll : List Call → BoundedMap Name Int size →
    List Answer × BoundedMap Name Int size
  | [], m => ([], m)
  | call :: calls, m =>
      let (answer, m) := call.spec m
      let (answers, m) := specAll calls m
      (answer :: answers, m)

theorem runAll_refines (ht : t.Backed) (hfile : file.hdr = t.header)
    (hroom : size * DirectoryEntry.size ≤ t.bytes) :
    ∀ {calls : List Call} {dir : Directory} {m : BoundedMap Name Int size}
      (d : Disk), dir.Represents m →
      (∀ call ∈ calls, call.Valid) →
      ∃ dir' d', runAll file calls dir d = .ok ((specAll calls m).1, dir') d' ∧
        dir'.Represents (specAll calls m).2
  | [], dir, m, d, h, _ => ⟨dir, d, rfl, h⟩
  | call :: calls, dir, m, d, h, hvalid => by
      obtain ⟨dir₁, d₁, hrun, h₁⟩ :=
        call.refines ht hfile hroom h (hvalid call (.head _)) d
      obtain ⟨dir', d', hrest, h'⟩ := runAll_refines ht hfile hroom d₁ h₁
        fun call' (hmem : call' ∈ calls) => hvalid call' (.tail _ hmem)
      refine ⟨dir', d', ?_, h'⟩
      rw [runAll, Outcome.bind_of_ok hrun]
      exact Outcome.bind_of_ok hrest

end Runs

end Directory

/-- Every sequence of calls on a new directory gives the answers of a map with
at most `size` keys.  In the state it ends in, the entries in use represent that
map, no two of them have one key, and `count` is their number; a refused `Add`
or `Remove` would change nothing, and the loops of `Apply`, `List` and `Print`
visit each entry in use once. -/
theorem directory_refines_map {t : HdrTree} (ht : t.Backed) {file : OpenFile}
    (hfile : file.hdr = t.header)
    {size : Nat} (hroom : size * DirectoryEntry.size ≤ t.bytes) (d : Disk)
    {calls : List Directory.Call} (hvalid : ∀ call ∈ calls, call.Valid) :
    ∃ (answers : List Directory.Answer) (dir : Directory) (d' : Disk)
      (m : BoundedMap Directory.Name Int size),
      Directory.runAll file calls (Directory.new size) d = .ok (answers,
        dir) d' ∧
      Directory.specAll calls BoundedMap.empty = (answers, m) ∧
      dir.Represents m ∧ (Directory.keys dir.table).Nodup ∧
      dir.count = m.dom.card ∧
      m.dom.card = dir.table.countP (·.inUse) ∧
      (∀ name s isDir, (dir.add name s isDir).1 = false →
        (dir.add name s isDir).2 = dir) ∧
      (∀ name isDir, (dir.remove name isDir).1 = false →
        (dir.remove name isDir).2 = dir) ∧
      ∀ d, dir.Visits d := by
  obtain ⟨dir, d', hrun, h⟩ := Directory.runAll_refines ht hfile hroom d
    (Directory.represents_new size) hvalid
  exact ⟨_, dir, d', _, hrun, rfl, h, h.good.keys,
    h.count.trans (congrArg Nat.cast h.card.symm), h.card,
    dir.add_refused, dir.remove_refused, Directory.visits_of_count h.count⟩

/-- A directory of one entry takes one name. -/
theorem directory_refines_map_one : ∃ t : HdrTree, t.Backed ∧ ∃ dir d',
    Directory.runAll ⟨t.header, 0⟩ [.add [97] 5 false, .add [98] 6 false,
        .reload, .find [97] false]
      (Directory.new 1) (fun _ => Sector.ofBytes []) =
        .ok ([.done true, .done false, .fetched, .sector 5], dir) d' ∧
            dir.count = 1 := by
  have ht : (HdrTree.mk 0 20 (.leaf 1 .nil)).Backed := by
    refine ⟨by decide, trivial, by decide, by decide, fun s hs => ?_⟩
    rw [List.mem_singleton.mp hs, numSectors_eq]
    decide
  have hvalid : ∀ call ∈ ([.add [97] 5 false, .add [98] 6 false, .reload,
      .find [97] false] :
      List Directory.Call), call.Valid := by
    intro call hcall
    simp only [List.mem_cons, List.not_mem_nil, or_false] at hcall
    rcases hcall with rfl | rfl | rfl | rfl
    · exact ⟨by decide, by decide⟩
    · exact ⟨by decide, by decide⟩
    · trivial
    · trivial
  obtain ⟨answers, dir, d', m, hrun, hspec, -, -, hcount, -⟩ :=
    directory_refines_map ht
    (show (OpenFile.mk (HdrTree.header ⟨0, 20, .leaf 1 .nil⟩) 0).hdr = _
      from rfl)
    (show 1 * DirectoryEntry.size ≤ 20 by decide)
      (fun _ => Sector.ofBytes []) hvalid
  refine ⟨_, ht, dir, d', ?_, ?_⟩
  · rw [hrun]
    cases hspec
    rfl
  · rw [hcount]
    cases hspec
    rfl

end EroikoBlue.MP4
