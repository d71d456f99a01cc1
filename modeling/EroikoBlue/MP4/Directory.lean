/-
# `MP4.Directory` — `filesys/directory.cc`

A directory is a table of 64 entries of 20 bytes, stored as the content of a
file.  An entry is found by kind and by the first nine characters of its name;
removing one only clears `inUse`, so the old name and sector stay in the table
until the slot is used again.

    entry:  isDir 1 | inUse 1 | – 2 | sector 4 | name 10 | – 2

The four bytes of padding are zero from the `memset` of the constructor on, and
are left out of `DirectoryEntry`.  A name is a C string in a buffer: the bytes
before the first zero.
-/
import Mathlib.Data.List.TakeWhile
import EroikoBlue.Lib.Search
import EroikoBlue.MP4.FileData

namespace EroikoBlue.MP4

open Bytes

/-- `NumDirEntries`. -/
abbrev NumDirEntries : Nat := 64

/-- `FileNameMaxLen`. -/
abbrev FileNameMaxLen : Nat := 9

abbrev IS_FILE : Bool := false
abbrev IS_DIR : Bool := true

/-! ## C strings -/

/-- The string in a buffer: what is before the first zero byte. -/
def cstr (buf : List Byte) : List Byte := buf.takeWhile (· ≠ 0)

/-- `!strncmp(a, b, n)`. -/
def strncmpEq (a b : List Byte) (n : Nat) : Bool :=
  (cstr a).take n == (cstr b).take n

/-- `strncpy(dst, src, n)`: at most `n` characters, filled with zeros up to
`n`. -/
def strncpy (dst src : List Byte) (n : Nat) : List Byte :=
  (cstr src).take n ++ List.replicate (n - (cstr src).length) 0 ++ dst.drop n

theorem length_strncpy {dst src : List Byte} {n : Nat} (h : n ≤ dst.length) :
    (strncpy dst src n).length = dst.length := by
  simp only [strncpy, List.length_append, List.length_take,
    List.length_replicate,
    List.length_drop]
  omega

theorem cstr_ne_zero {buf : List Byte} {c : Byte}
    (h : c ∈ cstr buf) : c ≠ 0 := by
  simpa using List.mem_takeWhile_imp h

/-- A copied name is found again under the first `n` characters of the
original. -/
theorem cstr_strncpy (dst src : List Byte) (n : Nat) :
    (cstr (strncpy dst src n)).take n = (cstr src).take n := by
  have hall : ∀ c ∈ (cstr src).take n, decide (c ≠ 0) = true := fun c hc => by
    simpa using cstr_ne_zero (List.mem_of_mem_take hc)
  rw [cstr, strncpy, List.append_assoc, List.takeWhile_append_of_pos hall]
  rcases Nat.lt_or_ge (cstr src).length n with hlt | hge
  · -- a zero follows the name
    obtain ⟨k, hk⟩ : ∃ k, n - (cstr src).length = k + 1 :=
      ⟨n - (cstr src).length - 1, by omega⟩
    rw [hk, List.replicate_succ, List.cons_append,
      List.takeWhile_cons_of_neg (by simp),
      List.append_nil, List.take_take, Nat.min_self]
  · rw [List.take_append_of_le_length (by rw [List.length_take]; omega),
      List.take_take,
      Nat.min_self]

/-! ## Entries -/

structure DirectoryEntry where
  isDir : Bool
  inUse : Bool
  sector : Int
  name : List Byte
  length_name : name.length = FileNameMaxLen + 1

namespace DirectoryEntry

/-- An entry of a new table: all bytes are zero. -/
def blank : DirectoryEntry where
  isDir := false
  inUse := false
  sector := 0
  name := List.replicate (FileNameMaxLen + 1) 0
  length_name := List.length_replicate

/-- What an entry is found by. -/
def key (e : DirectoryEntry) : Bool × List Byte :=
  (e.isDir, (cstr e.name).take FileNameMaxLen)

/-- The key of a name that is looked up. -/
def keyOf (name : List Byte) (isDir : Bool) : Bool × List Byte :=
  (isDir, (cstr name).take FileNameMaxLen)

/-- `table[i].inUse && table[i].isDir == isDir && !strncmp(…)`. -/
def named (name : List Byte) (isDir : Bool) (e : DirectoryEntry) : Bool :=
  e.inUse && e.isDir == isDir && strncmpEq e.name name FileNameMaxLen

theorem named_eq (name : List Byte) (isDir : Bool) (e : DirectoryEntry) :
    e.named name isDir = (e.inUse && e.key == keyOf name isDir) := by
  have hpair : ∀ (a b : Bool) (x y : List Byte), ((a, x) == (b, y)) =
      (a == b && x == y) :=
    fun _ _ _ _ => rfl
  rw [named, key, keyOf, hpair, strncmpEq, Bool.and_assoc]

/-- What `Add` does to the free entry it found. -/
def occupy (e : DirectoryEntry) (name : List Byte) (newSector : Int)
    (isDir : Bool) :
    DirectoryEntry where
  isDir := isDir
  inUse := true
  sector := newSector
  name := strncpy e.name name FileNameMaxLen
  length_name := by rw [length_strncpy (by rw [e.length_name]; omega), e.length_name]

/-- What `Remove` does to the entry it found. -/
def vacate (e : DirectoryEntry) : DirectoryEntry := { e with inUse := false }

@[simp] theorem occupy_key (e : DirectoryEntry) (name : List Byte) (s : Int)
    (isDir : Bool) :
    (e.occupy name s isDir).key = keyOf name isDir := by
  rw [key, keyOf, occupy, cstr_strncpy]

/-! ## An entry as bytes -/

def boolByte (b : Bool) : Byte := if b then 1 else 0

/-- `sizeof(DirectoryEntry)`. -/
abbrev size : Nat := 20

def encode (e : DirectoryEntry) : List Byte :=
  [boolByte e.isDir, boolByte e.inUse, 0, 0] ++ wordBytes
    (BitVec.ofInt 32 e.sector) ++ e.name ++ [0, 0]

def decode (bs : List Byte) : DirectoryEntry where
  isDir := bs.getD 0 0 ≠ 0
  inUse := bs.getD 1 0 ≠ 0
  sector :=
    (byteWord (bs.getD 4 0) (bs.getD 5 0) (bs.getD 6 0) (bs.getD 7 0)).toInt
  name := ((bs.drop 8).take (FileNameMaxLen + 1)) ++
    List.replicate
      (FileNameMaxLen + 1 - ((bs.drop 8).take (FileNameMaxLen + 1)).length) 0
  length_name := by
    rw [List.length_append, List.length_replicate, List.length_take]
    omega

theorem ext' {a b : DirectoryEntry}
    (h1 : a.isDir = b.isDir) (h2 : a.inUse = b.inUse) (h3 : a.sector = b.sector)
    (h4 : a.name = b.name) : a = b := by
  cases a; cases b
  simp only at h1 h2 h3 h4
  subst h1; subst h2; subst h3; subst h4
  rfl

@[simp] theorem length_encode (e : DirectoryEntry) :
    e.encode.length = size := by
  simp only [encode, wordBytes, List.length_append, List.length_cons,
    List.length_nil,
    e.length_name]
  rfl

theorem boolByte_ne_zero (b : Bool) : decide (boolByte b ≠ 0) = b := by
  cases b <;> decide

theorem decode_encode {e : DirectoryEntry} (h : IsInt32 e.sector) :
    decode e.encode = e := by
  have hdrop : e.encode.drop 8 = e.name ++ [0, 0] := rfl
  have hname : (e.encode.drop 8).take (FileNameMaxLen + 1) = e.name := by
    rw [hdrop, List.take_left' e.length_name]
  refine ext' (boolByte_ne_zero e.isDir) (boolByte_ne_zero e.inUse) ?_ ?_
  · show (byteWord _ _ _ _).toInt = e.sector
    have := byteWord_extract (BitVec.ofInt 32 e.sector)
    exact (congrArg BitVec.toInt this).trans (toInt_ofInt h)
  · show (e.encode.drop 8).take (FileNameMaxLen + 1) ++ List.replicate _ 0 =
      e.name
    rw [hname, e.length_name, Nat.sub_self, List.replicate_zero,
      List.append_nil]

end DirectoryEntry

/-! ## Tables -/

def encodeTable (table : List DirectoryEntry) : List Byte :=
  table.flatMap DirectoryEntry.encode

def decodeTable : Nat → List Byte → List DirectoryEntry
  | 0, _ => []
  | n + 1, bs =>
      DirectoryEntry.decode (bs.take DirectoryEntry.size) ::
        decodeTable n (bs.drop DirectoryEntry.size)

@[simp] theorem length_encodeTable (table : List DirectoryEntry) :
    (encodeTable table).length = table.length * DirectoryEntry.size :=
  length_blocks DirectoryEntry.length_encode table

theorem decodeTable_encodeTable : ∀ {table : List DirectoryEntry},
    (∀ e ∈ table, IsInt32 e.sector) →
      decodeTable table.length (encodeTable table) = table
  | [], _ => rfl
  | e :: table, h => by
      have hsplit : encodeTable (e :: table) = e.encode ++ encodeTable table :=
        rfl
      rw [hsplit, List.length_cons, decodeTable,
        List.take_left' e.length_encode,
        List.drop_left' e.length_encode, DirectoryEntry.decode_encode
          (h e (.head _)),
        decodeTable_encodeTable fun e' he' => h e' (.tail _ he')]

/-! ## The directory in memory -/

structure Directory where
  table : List DirectoryEntry
  /-- The number of entries in use. -/
  count : Int

namespace Directory

open DirectoryEntry

/-- `Directory::Directory(size)`. -/
def new (size : Nat) : Directory where
  table := List.replicate size DirectoryEntry.blank
  count := 0

/-- `Directory::FetchFrom`. -/
def fetchFrom (dir : Directory) (file : OpenFile) (d : Disk) :
    Except Fault Directory := do
  let got ← file.readAt d (dir.table.length * DirectoryEntry.size : Nat) 0
  let table := decodeTable dir.table.length (blit (encodeTable dir.table) got 0)
  pure { table := table, count := table.countP (·.inUse) }

/-- `Directory::WriteBack`. -/
def writeBack (dir : Directory) (file : OpenFile) : FsM Unit := do
  let _ ← file.writeAt (encodeTable dir.table)
    (dir.table.length * DirectoryEntry.size : Nat) 0
  pure ()

/-- `Directory::FindIndex`; `none` is the source's `-1`. -/
def findIndex (dir : Directory) (name : List Byte) (isDir : Bool) :
    Option Nat :=
  dir.table.findIdx? (named name isDir)

/-- `Directory::Find`. -/
def find (dir : Directory) (name : List Byte) (isDir : Bool) : Int :=
  match dir.findIndex name isDir with
  | some i => (dir.table.getD i blank).sector
  | none => -1

/-- `Directory::Add`. -/
def add (dir : Directory) (name : List Byte) (newSector : Int) (isDir : Bool) :
    Bool × Directory :=
  match dir.findIndex name isDir with
  | some _ => (false, dir)
  | none => match dir.table.findIdx? (!·.inUse) with
    | none => (false, dir)
    | some i => (true, {
        table := dir.table.modify i fun e => e.occupy name newSector isDir
        count := dir.count + 1 })

/-- `Directory::Remove`. -/
def remove (dir : Directory) (name : List Byte) (isDir : Bool) :
    Bool × Directory :=
  match dir.findIndex name isDir with
  | none => (false, dir)
  | some i =>
      (true, { table := dir.table.modify i vacate, count := dir.count - 1 })

/-- `Directory::SubDirectory(index, fresh_dir)`. -/
def subDirectory (dir : Directory) (index : Nat) (d : Disk) :
    Except Fault Directory := do
  let sub_f ← OpenFile.open d (dir.table.getD index blank).sector
  (new NumDirEntries).fetchFrom sub_f d

section Apply
variable {σ : Type}

/-- The loop of `Apply` from entry `i` on, with `cnt` entries in use left to
visit; `sub i` is what the recursive call on entry `i` does. -/
def applyLoop (callbackFile callbackDir : Int → σ → Except Fault σ)
    (sub : Nat → σ → Except Fault σ) : List DirectoryEntry → Nat → Int → σ →
    Except Fault σ
  | table, i, cnt, object =>
    if cnt = 0 then pure object
    else match table with
    | [] => .error (.undefined "table[i]")
    | e :: table =>
      if e.inUse then
        if e.isDir then do
          let object ← sub i object
          let object ← callbackDir e.sector object
          applyLoop callbackFile callbackDir sub table (i + 1) (cnt - 1) object
        else do
          let object ← callbackFile e.sector object
          applyLoop callbackFile callbackDir sub table (i + 1) (cnt - 1) object
      else applyLoop callbackFile callbackDir sub table (i + 1) cnt object

/-- `Directory::Apply`, at most `fuel` directories deep. -/
def apply (callbackFile callbackDir : Int → σ → Except Fault σ) (d : Disk) :
    Nat → Directory → σ → Except Fault σ
  | 0, _, _ => .error .diverges
  | fuel + 1, dir, object =>
    applyLoop callbackFile callbackDir
      (fun i object => do
        let sub ← dir.subDirectory i d
        apply callbackFile callbackDir d fuel sub object)
      dir.table 0 dir.count object

end Apply

end Directory

/-! ## The operations on a table -/

namespace Directory

open DirectoryEntry Search

/-- The first entry in use with key `k`. -/
def hasKey (k : Bool × List Byte) (e : DirectoryEntry) : Bool :=
  e.inUse && e.key == k

/-- `dir` with `count` right for its table. -/
def ofTable (table : List DirectoryEntry) : Directory where
  table := table
  count := table.countP (·.inUse)

theorem named_eq_hasKey (name : List Byte) (isDir : Bool) :
    named name isDir = hasKey (keyOf name isDir) :=
  funext fun e => named_eq name isDir e

theorem find_eq (dir : Directory) (name : List Byte) (isDir : Bool) :
    dir.find name isDir = match dir.table.find? (hasKey (keyOf name isDir)) with
      | some e => e.sector
      | none => -1 := by
  rw [find, findIndex, named_eq_hasKey]
  cases hidx : dir.table.findIdx? (hasKey (keyOf name isDir)) with
  | none => rw [(findIdx?_isNone _).mp hidx]
  | some i => rw [getD_findIdx? hidx blank]

theorem findIndex_isNone (dir : Directory) (name : List Byte) (isDir : Bool) :
    dir.findIndex name isDir = none ↔
      dir.table.find? (hasKey (keyOf name isDir)) = none := by
  rw [findIndex, named_eq_hasKey]
  exact findIdx?_isNone dir.table

/-- `Add` of a name that is absent, with a free entry: the first one is
occupied. -/
theorem add_ok {dir : Directory} {name : List Byte}
    {isDir : Bool} {e : DirectoryEntry}
    (s : Int) (hnew : dir.table.find? (hasKey (keyOf name isDir)) = none)
    (hfree : dir.table.find? (!·.inUse) = some e) :
    (dir.add name s isDir).2.table =
      updateFirst (!·.inUse) (fun e => e.occupy name s isDir) dir.table := by
  rw [add, (findIndex_isNone dir name isDir).mpr hnew]
  cases hidx : dir.table.findIdx? (!·.inUse) with
  | none => rw [(findIdx?_isNone _).mp hidx] at hfree; cases hfree
  | some i => exact modify_findIdx? hidx

/-- `Add` to a full table changes nothing. -/
theorem add_full {dir : Directory} (name : List Byte) (isDir : Bool)
    (s : Int) (hfull : dir.table.find? (!·.inUse) = none) :
    (dir.add name s isDir).2 = dir := by
  rw [add]
  cases dir.findIndex name isDir with
  | some i => rfl
  | none =>
      simp only
      rw [(findIdx?_isNone _).mpr hfull]

theorem remove_ok {dir : Directory} {name : List Byte} {isDir : Bool}
    {e : DirectoryEntry}
    (hold : dir.table.find? (hasKey (keyOf name isDir)) = some e) :
    (dir.remove name isDir).2.table =
      updateFirst (hasKey (keyOf name isDir)) vacate dir.table := by
  rw [remove]
  cases hidx : dir.findIndex name isDir with
  | none => rw [(findIndex_isNone dir name isDir).mp hidx] at hold; cases hold
  | some i =>
      rw [findIndex, named_eq_hasKey] at hidx
      exact modify_findIdx? hidx

/-! ## The names of a table -/

/-- What the entries in use are found by. -/
def keys (table : List DirectoryEntry) : List (Bool × List Byte) :=
  (table.filter (·.inUse)).map key

theorem keys_cons (e : DirectoryEntry) (table : List DirectoryEntry) :
    keys (e :: table) = if e.inUse then e.key :: keys table
      else keys table := by
  rw [keys, List.filter_cons]
  split <;> rfl

theorem find?_hasKey_isNone {table : List DirectoryEntry}
    {k : Bool × List Byte} :
    table.find? (hasKey k) = none ↔ k ∉ keys table := by
  induction table with
  | nil => simp [keys]
  | cons e table ih =>
      rw [List.find?_cons, keys_cons, hasKey]
      cases e.inUse with
      | false => simpa using ih
      | true =>
          by_cases hk : e.key = k
          · simp [hk]
          · rw [Bool.true_and, beq_eq_false_iff_ne.mpr hk, if_pos rfl,
              List.mem_cons, not_or]
            exact ih.trans (and_iff_right (Ne.symm hk)).symm

theorem keys_vacate (k : Bool × List Byte) (table : List DirectoryEntry) :
    keys (updateFirst (hasKey k) vacate table) = (keys table).erase k := by
  induction table with
  | nil => rfl
  | cons e table ih =>
      rw [updateFirst, keys_cons, hasKey]
      cases huse : e.inUse with
      | false => simpa [keys_cons, huse] using ih
      | true =>
          by_cases hk : e.key = k
          · simp [keys_cons, hk, vacate]
          · simpa [keys_cons, huse, hk] using ih

theorem keys_occupy {table : List DirectoryEntry}
    {e : DirectoryEntry} (name : List Byte) (s : Int) (isDir : Bool)
    (hfree : table.find? (!·.inUse) = some e) :
    (keys (updateFirst (!·.inUse) (fun e => e.occupy name s isDir) table)).Perm
      (keyOf name isDir :: keys table) := by
  induction table with
  | nil => cases hfree
  | cons e' table ih =>
      rw [updateFirst, keys_cons]
      cases huse : e'.inUse with
      | false =>
          have huse' : (e'.occupy name s isDir).inUse = true := rfl
          simp [keys_cons, huse']
      | true =>
          rw [List.find?_cons_of_neg (by simp [huse])] at hfree
          simpa [keys_cons, huse] using ((ih hfree).cons e'.key).trans
            (.swap _ _ _)

/-- A table the file system works on: the sectors are `int`s, and no two entries
in use have one name. -/
structure GoodTable (table : List DirectoryEntry) : Prop where
  sectors : ∀ e ∈ table, IsInt32 e.sector
  keys : (keys table).Nodup

namespace GoodTable
variable {table : List DirectoryEntry}

theorem blank (n : Nat) :
    GoodTable (List.replicate n DirectoryEntry.blank) where
  sectors := fun e he => by
    rw [(List.mem_replicate.mp he).2]
    exact ⟨by decide, by decide⟩
  keys := by
    have hnone : (List.replicate n DirectoryEntry.blank).filter (·.inUse) =
        [] :=
      List.filter_eq_nil_iff.mpr fun e he => by
        rw [(List.mem_replicate.mp he).2]
        decide
    rw [Directory.keys, hnone]
    exact List.nodup_nil

theorem update {p : DirectoryEntry → Bool}
    {f : DirectoryEntry → DirectoryEntry} (h : ∀ e ∈ table, IsInt32 e.sector)
    (hf : ∀ e, IsInt32 e.sector → IsInt32 (f e).sector) :
    ∀ e ∈ updateFirst p f table, IsInt32 e.sector := by
  induction table with
  | nil => exact h
  | cons e table ih =>
      intro e' he'
      rw [updateFirst] at he'
      split at he'
      · rcases List.mem_cons.mp he' with rfl | he'
        · exact hf e (h e (.head _))
        · exact h e' (.tail _ he')
      · rcases List.mem_cons.mp he' with rfl | he'
        · exact h e' (.head _)
        · exact ih (fun e he => h e (.tail _ he)) e' he'

theorem vacate (h : GoodTable table) (k : Bool × List Byte) :
    GoodTable (updateFirst (hasKey k) DirectoryEntry.vacate table) where
  sectors := update h.sectors fun _ he => he
  keys := by
    rw [keys_vacate]
    exact h.keys.erase k

theorem find?_vacate (h : GoodTable table) (k : Bool × List Byte) :
    (updateFirst (hasKey k) DirectoryEntry.vacate table).find? (hasKey k) =
      none := by
  rw [find?_hasKey_isNone, keys_vacate]
  exact h.keys.not_mem_erase

theorem occupy (h : GoodTable table) {name : List Byte} {s : Int} {isDir : Bool}
    {e : DirectoryEntry}
    (hs : IsInt32 s) (hnew : table.find? (hasKey (keyOf name isDir)) = none)
    (hfree : table.find? (!·.inUse) = some e) :
    GoodTable
      (updateFirst (!·.inUse) (fun e => e.occupy name s isDir) table) where
  sectors := update h.sectors fun _ _ => hs
  keys := by
    refine (keys_occupy name s isDir hfree).nodup_iff.mpr
      (List.nodup_cons.mpr ⟨?_, h.keys⟩)
    exact find?_hasKey_isNone.mp hnew

end GoodTable

end Directory

/-! ## A directory on the disk -/

/-- `DirectoryFileSize`. -/
abbrev DirectoryFileSize : Nat := NumDirEntries * DirectoryEntry.size

namespace HdrTree

/-- The disk holds the table `table` in the file `t`. -/
structure HoldsTable (d : Disk) (t : HdrTree)
    (table : List DirectoryEntry) : Prop where
  wf : t.WF
  bytes : t.bytes = DirectoryFileSize
  length : table.length = NumDirEntries
  content : t.content d = encodeTable table

/-- The header of a directory file. -/
structure IsDirFile (t : HdrTree) : Prop where
  wf : t.WF
  bytes : t.bytes = DirectoryFileSize

theorem IsDirFile.full {t : HdrTree} (h : t.IsDirFile) :
    t.bytes = t.leaves.length * SectorSize := by
  have hfit := h.wf.fits
  have hb := h.bytes
  simp only [HdrSlots.Fits, SectorSize, HdrTree.leaves, DirectoryFileSize,
    NumDirEntries,
    DirectoryEntry.size] at *
  omega

variable {t : HdrTree} {d : Disk} {table : List DirectoryEntry}

theorem HoldsTable.fetchFrom_eq (h : t.HoldsTable d table)
    (hgood : Directory.GoodTable table) {file : OpenFile}
    (hfile : file.hdr = t.header) {dir : Directory}
    (hdir : dir.table.length = NumDirEntries) :
    dir.fetchFrom file d = .ok { table := table, count := table.countP (·.inUse) } := by
  have hlen : (t.content d).length = NumDirEntries * DirectoryEntry.size := by
    rw [h.content, length_encodeTable, h.length]
  have hread := readAt_eq h.wf.backed hfile d
    (n := NumDirEntries * DirectoryEntry.size) (p := 0) (by decide)
  rw [List.drop_zero, List.take_of_length_le (Nat.le_of_eq hlen)] at hread
  rw [Directory.fetchFrom, hdir, show (0 : Int) = (0 : Nat) from rfl, hread,
    Outcome.ok_bind,
    blit_zero (by rw [hlen, length_encodeTable, hdir]), h.content]
  have hdecode := decodeTable_encodeTable hgood.sectors
  rw [h.length] at hdecode
  rw [hdecode]
  rfl

/-- Writing a table: nothing outside the data sectors of the directory
changes. -/
theorem IsDirFile.writeBack_eq (h : t.IsDirFile)
    {file : OpenFile} (hfile : file.hdr = t.header) (d : Disk) {dir : Directory}
    (hdir : dir.table.length = NumDirEntries) :
    ∃ d', dir.writeBack file d = .ok () d' ∧ (∀ s, s ∉ t.leaves → d' s = d s) ∧
      t.HoldsTable d' dir.table := by
  have hlen : (encodeTable dir.table).length =
      NumDirEntries * DirectoryEntry.size := by
    rw [length_encodeTable, hdir]
  have hb : t.bytes = NumDirEntries * DirectoryEntry.size := h.bytes
  obtain ⟨d', hrun, hframe, hcontent⟩ := writeAt_eq h.wf.backed hfile d
    (n := NumDirEntries * DirectoryEntry.size) (p := 0)
      (Nat.le_of_eq hlen.symm) (by decide)
  refine ⟨d', ?_, hframe, h.wf, h.bytes, hdir, ?_⟩
  · rw [Directory.writeBack, hdir, show (0 : Int) = (0 : Nat) from rfl,
      Outcome.bind_of_ok hrun]
    rfl
  · rw [hcontent, hb, Nat.sub_zero, Nat.min_self,
      List.take_of_length_le (Nat.le_of_eq hlen),
      blit_zero (by rw [hlen, length_content h.wf.backed, hb])]

/-- Writing back a table that was not changed leaves the disk as it is. -/
theorem HoldsTable.writeBack_same (h : t.HoldsTable d table) {file : OpenFile}
    (hfile : file.hdr = t.header) {dir : Directory} (hdir : dir.table = table) :
    dir.writeBack file d = .ok () d := by
  have hfull : t.IsDirFile := ⟨h.wf, h.bytes⟩
  obtain ⟨d', hrun, hframe, hheld⟩ :=
    hfull.writeBack_eq hfile d (hdir ▸ h.length)
  have hsame : t.content d' = t.content d := by
    rw [hheld.content, h.content, hdir]
  rw [eq_of_content hfull.full hframe hsame] at hrun
  exact hrun

end HdrTree

end EroikoBlue.MP4
