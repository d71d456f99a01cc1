/-
# `MP4.Tree` — the tree of directories

What the file system is for: a tree whose inner nodes are directories and whose
leaves are files.  `Entries` is the content of one directory, slot by slot, with
the directories below it in place, so that the bytes of a directory on the disk
are a function of it (`table`) and the objects below it are a list (`objs`).

Every operation of `filesys.cc` changes one directory, found by walking down
from the root.  `Folder.get` and `Folder.set` are that walk and the change;
`objs_set` says that all objects outside the directory stay what they were.
Nothing here mentions a disk.

## Slots, not sets

A directory of the program has slots, and it matters which: a removed entry
leaves its old name behind, and a new one takes the first slot that is free.
`Entries` keeps that order and the leftovers, so `table` is a function and
`table_erase` and `table_insert` are equations with what `directory.cc` does to
the array.

Two lists of the objects are needed.  `objs` is in the order of the slots, for
sectors and owners; `postorder` is in the order in which `RecursiveRemove` meets
them, and it is a permutation of the first (`postorder_perm`).

`Tidy` says that every entry agrees with what is below it: whether it is in use,
of which kind, and in which sector.
-/
import EroikoBlue.MP4.Directory

namespace EroikoBlue.MP4

open Bytes Search

/-- The key of an entry: its kind and the first nine characters of its name. -/
abbrev Key := Bool × List Byte

/-- The slots of a directory. -/
inductive Entries where
  | nil
  /-- A slot that is not in use; the entry may hold an old name. -/
  | free (e : DirectoryEntry) (rest : Entries)
  | file (e : DirectoryEntry) (hdr : HdrTree) (rest : Entries)
  | dir (e : DirectoryEntry) (hdr : HdrTree) (sub rest : Entries)

/-- A file (no table) or a directory (with its table), and its header. -/
structure Obj where
  hdr : HdrTree
  table : Option (List DirectoryEntry)

namespace Obj

/-- Every sector an object owns. -/
def sectors (o : Obj) : List Nat := o.hdr.sectors

end Obj

namespace Entries

def table : Entries → List DirectoryEntry
  | .nil => []
  | .free e rest => e :: rest.table
  | .file e _ rest => e :: rest.table
  | .dir e _ _ rest => e :: rest.table

/-- Everything below a directory, each directory before what is in it. -/
def objs : Entries → List Obj
  | .nil => []
  | .free _ rest => rest.objs
  | .file _ hdr rest => ⟨hdr, none⟩ :: rest.objs
  | .dir _ hdr sub rest => ⟨hdr, some sub.table⟩ :: (sub.objs ++ rest.objs)

/-- Everything below a directory, each directory after what is in it. -/
def postorder : Entries → List Obj
  | .nil => []
  | .free _ rest => rest.postorder
  | .file _ hdr rest => ⟨hdr, none⟩ :: rest.postorder
  | .dir _ hdr sub rest =>
      sub.postorder ++ ⟨hdr, some sub.table⟩ :: rest.postorder

/-- The directories below a directory, at any depth. -/
def subdirs : Entries → List (HdrTree × Entries)
  | .nil => []
  | .free _ rest => rest.subdirs
  | .file _ _ rest => rest.subdirs
  | .dir _ hdr sub rest => (hdr, sub) :: (sub.subdirs ++ rest.subdirs)

/-- The entries agree with what hangs below them. -/
def Tidy : Entries → Prop
  | .nil => True
  | .free e rest => e.inUse = false ∧ rest.Tidy
  | .file e hdr rest =>
      (e.inUse = true ∧ e.isDir = false ∧ e.sector = hdr.sector) ∧ rest.Tidy
  | .dir e hdr sub rest =>
      (e.inUse = true ∧ e.isDir = true ∧ e.sector = hdr.sector) ∧
        sub.Tidy ∧ rest.Tidy

/-- The first object with a key. -/
def lookup (k : Key) : Entries → Option (HdrTree × Option Entries)
  | .nil => none
  | .free _ rest => rest.lookup k
  | .file e hdr rest => if e.key = k then some (hdr, none) else rest.lookup k
  | .dir e hdr sub rest => if e.key = k then some (hdr, some sub)
        else rest.lookup k

/-- `n` slots that were never used. -/
def empty : Nat → Entries
  | 0 => .nil
  | n + 1 => .free .blank (empty n)

@[simp] theorem table_empty (n : Nat) :
    (empty n).table = List.replicate n .blank := by
  induction n with
  | zero => rfl
  | succ n ih => rw [empty, table, ih, List.replicate_succ]

@[simp] theorem lookup_empty (n : Nat) (k : Key) :
    (empty n).lookup k = none := by
  induction n with
  | zero => rfl
  | succ n ih => exact ih

theorem find?_empty (n : Nat) (h : 0 < n) :
    ((empty n).table.find? (!·.inUse)).isSome = true := by
  cases n with
  | zero => exact absurd h (Nat.lt_irrefl 0)
  | succ n => rfl

@[simp] theorem objs_empty (n : Nat) : (empty n).objs = [] := by
  induction n with
  | zero => rfl
  | succ n ih => exact ih

theorem tidy_empty (n : Nat) : (empty n).Tidy := by
  induction n with
  | zero => trivial
  | succ n ih => exact ⟨rfl, ih⟩

theorem postorder_perm (es : Entries) : es.postorder.Perm es.objs := by
  induction es with
  | nil => exact .refl _
  | free e rest ih => exact ih
  | file e hdr rest ih => exact ih.cons _
  | dir e hdr sub rest ihs ihr =>
      exact List.perm_middle.trans ((ihs.append ihr).cons _)

/-- Each directory comes right after what is in it. -/
theorem postorder_subdirs {es : Entries} {D : HdrTree × Entries}
    (h : D ∈ es.subdirs) :
    ∃ a b, es.postorder =
      a ++ (D.2.postorder ++ ⟨D.1, some D.2.table⟩ :: b) := by
  induction es with
  | nil => cases h
  | free e rest ih => exact ih h
  | file e hdr rest ih =>
      obtain ⟨a, b, hab⟩ := ih h
      exact ⟨⟨hdr, none⟩ :: a, b, congrArg (_ :: ·) hab⟩
  | dir e hdr sub rest ihs ihr =>
      rcases List.mem_cons.mp h with rfl | h
      · exact ⟨[], rest.postorder, rfl⟩
      rcases List.mem_append.mp h with h | h
      · obtain ⟨a, b, hab⟩ := ihs h
        refine ⟨a, b ++ ⟨hdr, some sub.table⟩ :: rest.postorder, ?_⟩
        rw [postorder, hab]
        simp only [List.append_assoc, List.cons_append]
      · obtain ⟨a, b, hab⟩ := ihr h
        refine ⟨sub.postorder ++ ⟨hdr, some sub.table⟩ :: a, b, ?_⟩
        rw [postorder, hab]
        simp only [List.append_assoc, List.cons_append]

/-! ## Lookups in the table and in the tree -/

/-- The first entry with a key and the first object with it have the same
sector. -/
theorem find?_hasKey {es : Entries} (h : es.Tidy) (k : Key) :
    (es.table.find? (Directory.hasKey k)).map (·.sector) =
      (es.lookup k).map fun found => (found.1.sector : Int) := by
  induction es with
  | nil => rfl
  | free e rest ih =>
      have hno : Directory.hasKey k e = false := by
        rw [Directory.hasKey, h.1, Bool.false_and]
      rw [table, List.find?_cons, hno, lookup]
      exact ih h.2
  | file e hdr rest ih =>
      obtain ⟨⟨huse, _, hsec⟩, hrest⟩ := h
      rw [table, List.find?_cons, lookup, Directory.hasKey, huse, Bool.true_and]
      by_cases hk : e.key = k
      · rw [if_pos hk, hk, beq_self_eq_true]
        exact congrArg some hsec
      · rw [if_neg hk, beq_eq_false_iff_ne.mpr hk]
        exact ih hrest
  | dir e hdr sub rest _ ih =>
      obtain ⟨⟨huse, _, hsec⟩, _, hrest⟩ := h
      rw [table, List.find?_cons, lookup, Directory.hasKey, huse, Bool.true_and]
      by_cases hk : e.key = k
      · rw [if_pos hk, hk, beq_self_eq_true]
        exact congrArg some hsec
      · rw [if_neg hk, beq_eq_false_iff_ne.mpr hk]
        exact ih hrest

theorem lookup_kind {es : Entries} (h : es.Tidy) {k : Key} {hdr : HdrTree}
    {sub : Option Entries} (hk : es.lookup k = some (hdr, sub)) :
    sub.isSome = k.1 := by
  induction es with
  | nil => cases hk
  | free e rest ih => exact ih h.2 hk
  | file e hdr' rest ih =>
      rw [lookup] at hk
      split at hk
      · next heq =>
          simp only [Option.some.injEq, Prod.mk.injEq] at hk
          rw [← hk.2, ← heq]
          exact h.1.2.1.symm
      · exact ih h.2 hk
  | dir e hdr' sub' rest _ ih =>
      rw [lookup] at hk
      split at hk
      · next heq =>
          simp only [Option.some.injEq, Prod.mk.injEq] at hk
          rw [← hk.2, ← heq]
          exact h.1.2.1.symm
      · exact ih h.2.2 hk

theorem lookup_file {es : Entries}
    (h : es.Tidy) {name : List Byte} {hdr : HdrTree} {sub : Option Entries}
    (hk : es.lookup (DirectoryEntry.keyOf name IS_FILE) = some (hdr, sub)) :
    sub = none :=
  Option.not_isSome_iff_eq_none.mp (Bool.eq_false_iff.mp (lookup_kind h hk))

/-! ## Changing a directory -/

/-- Change the content of the first directory with a key. -/
def updateSub (k : Key) (f : Entries → Entries) : Entries → Entries
  | .nil => .nil
  | .free e rest => .free e (rest.updateSub k f)
  | .file e hdr rest => if e.key = k then .file e hdr rest
        else .file e hdr (rest.updateSub k f)
  | .dir e hdr sub rest =>
      if e.key = k then .dir e hdr (f sub) rest
        else .dir e hdr sub (rest.updateSub k f)

/-- Free the slot of the first object with a key. -/
def erase (k : Key) : Entries → Entries
  | .nil => .nil
  | .free e rest => .free e (rest.erase k)
  | .file e hdr rest => if e.key = k then .free e.vacate rest
        else .file e hdr (rest.erase k)
  | .dir e hdr sub rest => if e.key = k then .free e.vacate rest
        else .dir e hdr sub (rest.erase k)

/-- Put an object into the first free slot. -/
def insert (name : List Byte) (hdr : HdrTree) (sub : Option Entries) :
    Entries → Entries
  | .nil => .nil
  | .free e rest => match sub with
    | none => .file (e.occupy name hdr.sector IS_FILE) hdr rest
    | some sub => .dir (e.occupy name hdr.sector IS_DIR) hdr sub rest
  | .file e h rest => .file e h (rest.insert name hdr sub)
  | .dir e h s rest => .dir e h s (rest.insert name hdr sub)

/-- The objects in the directory `sub` of an object, if it is one. -/
def inside : Option Entries → List Obj
  | none => []
  | some sub => sub.objs

/-- An object and everything in it. -/
def subtree (hdr : HdrTree) (sub : Option Entries) : List Obj :=
  ⟨hdr, sub.map table⟩ :: inside sub

theorem perm_pull {α : Type} (x : α) (a b c : List α) :
    (a ++ x :: (b ++ c)).Perm (x :: (b ++ (a ++ c))) :=
  List.perm_middle.trans ((List.perm_append_comm_assoc a b c).cons x)

/-- One directory is changed; the objects outside it, `R`, stay. -/
theorem objs_updateSub {es : Entries} {k : Key} {hdr : HdrTree} {sub : Entries}
    (h : es.lookup k = some (hdr, some sub)) :
    ∃ R, es.objs.Perm (⟨hdr, some sub.table⟩ :: (sub.objs ++ R)) ∧
      ∀ f, (es.updateSub k f).objs.Perm
        (⟨hdr, some (f sub).table⟩ :: ((f sub).objs ++ R)) := by
  induction es with
  | nil => cases h
  | free e rest ih => exact ih h
  | file e hdr' rest ih =>
      rw [lookup] at h
      by_cases hk : e.key = k
      · rw [if_pos hk] at h
        cases h
      · rw [if_neg hk] at h
        obtain ⟨R, hold, hnew⟩ := ih h
        refine ⟨⟨hdr', none⟩ :: R, ?_, ?_⟩
        · exact (hold.cons _).trans (perm_pull _ [_] _ _)
        · intro f
          rw [updateSub, if_neg hk]
          exact ((hnew f).cons _).trans (perm_pull _ [_] _ _)
  | dir e hdr' sub' rest _ ih =>
      rw [lookup] at h
      by_cases hk : e.key = k
      · rw [if_pos hk, Option.some.injEq, Prod.mk.injEq, Option.some.injEq] at h
        obtain ⟨rfl, rfl⟩ := h
        refine ⟨rest.objs, .refl _, ?_⟩
        intro f
        rw [updateSub, if_pos hk]
        exact .refl _
      · rw [if_neg hk] at h
        obtain ⟨R, hold, hnew⟩ := ih h
        refine ⟨⟨hdr', some sub'.table⟩ :: (sub'.objs ++ R), ?_, ?_⟩
        · exact ((hold.append_left _).cons _).trans
            (perm_pull _ (_ :: sub'.objs) _ _)
        · intro f
          rw [updateSub, if_neg hk]
          exact (((hnew f).append_left _).cons _).trans
            (perm_pull _ (_ :: sub'.objs) _ _)

@[simp] theorem table_updateSub (es : Entries) (k : Key)
    (f : Entries → Entries) :
    (es.updateSub k f).table = es.table := by
  induction es with
  | nil => rfl
  | free e rest ih => rw [updateSub, table, ih, table]
  | file e hdr rest ih =>
      rw [updateSub]
      split
      · rfl
      · rw [table, ih, table]
  | dir e hdr sub rest _ ih =>
      rw [updateSub]
      split
      · rfl
      · rw [table, ih, table]

theorem lookup_updateSub {es : Entries} {k : Key}
    {hdr : HdrTree} {sub : Entries} (h : es.lookup k = some (hdr, some sub))
    (f : Entries → Entries) :
    (es.updateSub k f).lookup k = some (hdr, some (f sub)) := by
  induction es with
  | nil => cases h
  | free e rest ih => exact ih h
  | file e hdr' rest ih =>
      rw [lookup] at h
      by_cases hk : e.key = k
      · rw [if_pos hk] at h
        cases h
      · rw [if_neg hk] at h
        rw [updateSub, if_neg hk, lookup, if_neg hk]
        exact ih h
  | dir e hdr' sub' rest _ ih =>
      rw [lookup] at h
      by_cases hk : e.key = k
      · rw [if_pos hk, Option.some.injEq, Prod.mk.injEq, Option.some.injEq] at h
        obtain ⟨rfl, rfl⟩ := h
        rw [updateSub, if_pos hk, lookup, if_pos hk]
      · rw [if_neg hk] at h
        rw [updateSub, if_neg hk, lookup, if_neg hk]
        exact ih h

theorem lookup_updateSub_of_ne {j k : Key} (h : j ≠ k) (f : Entries → Entries)
    (es : Entries) :
    (es.updateSub k f).lookup j = es.lookup j := by
  induction es with
  | nil => rfl
  | free e rest ih => exact ih
  | file e hdr rest ih =>
      rw [updateSub]
      split
      · rfl
      · rw [lookup, lookup, ih]
  | dir e hdr sub rest ihs ihr =>
      rw [updateSub]
      split
      · next hk => rw [lookup, lookup, if_neg (hk ▸ h.symm),
          if_neg (hk ▸ h.symm)]
      · rw [lookup, lookup, ihr]

theorem tidy_updateSub {es : Entries} (h : es.Tidy)
    (k : Key) {f : Entries → Entries} (hf : ∀ sub, sub.Tidy → (f sub).Tidy) :
    (es.updateSub k f).Tidy := by
  induction es with
  | nil => trivial
  | free e rest ih => exact ⟨h.1, ih h.2⟩
  | file e hdr rest ih =>
      rw [updateSub]
      split
      · exact h
      · exact ⟨h.1, ih h.2⟩
  | dir e hdr sub rest _ ih =>
      rw [updateSub]
      split
      · exact ⟨h.1, hf sub h.2.1, h.2.2⟩
      · exact ⟨h.1, h.2.1, ih h.2.2⟩

theorem tidy_lookup {es : Entries} (h : es.Tidy) {k : Key} {hdr : HdrTree}
    {sub : Entries} (hk : es.lookup k = some (hdr, some sub)) : sub.Tidy := by
  induction es with
  | nil => cases hk
  | free e rest ih => exact ih h.2 hk
  | file e hdr' rest ih =>
      rw [lookup] at hk
      split at hk
      · cases hk
      · exact ih h.2 hk
  | dir e hdr' sub' rest _ ih =>
      rw [lookup] at hk
      split at hk
      · simp only [Option.some.injEq, Prod.mk.injEq] at hk
        obtain ⟨rfl, rfl⟩ := hk
        exact h.2.1
      · exact ih h.2.2 hk

/-! ## Removing an object -/

theorem objs_erase {es : Entries} {k : Key} {hdr : HdrTree}
    {sub : Option Entries} (h : es.lookup k = some (hdr, sub)) :
    es.objs.Perm (subtree hdr sub ++ (es.erase k).objs) := by
  induction es with
  | nil => cases h
  | free e rest ih => exact ih h
  | file e hdr' rest ih =>
      rw [lookup] at h
      by_cases hk : e.key = k
      · rw [if_pos hk, Option.some.injEq, Prod.mk.injEq] at h
        obtain ⟨rfl, rfl⟩ := h
        rw [erase, if_pos hk]
        exact .refl _
      · rw [if_neg hk] at h
        rw [erase, if_neg hk]
        exact ((ih h).cons _).trans (perm_pull _ [_] _ _)
  | dir e hdr' sub' rest _ ih =>
      rw [lookup] at h
      by_cases hk : e.key = k
      · rw [if_pos hk, Option.some.injEq, Prod.mk.injEq] at h
        obtain ⟨rfl, rfl⟩ := h
        rw [erase, if_pos hk]
        exact .refl _
      · rw [if_neg hk] at h
        rw [erase, if_neg hk]
        exact (((ih h).append_left _).cons _).trans
          (perm_pull _ (_ :: sub'.objs) _ _)

theorem table_erase {es : Entries} (h : es.Tidy) (k : Key) :
    (es.erase k).table = updateFirst (Directory.hasKey k) .vacate es.table := by
  induction es with
  | nil => rfl
  | free e rest ih =>
      have hno : ¬ Directory.hasKey k e = true := by
        simp [Directory.hasKey, h.1]
      rw [erase, table, table, updateFirst, if_neg hno, ih h.2]
  | file e hdr rest ih =>
      have hkey : Directory.hasKey k e = true ↔ e.key = k := by
        simp [Directory.hasKey, h.1.1]
      rw [erase, table, updateFirst]
      split
      · next hk => rw [if_pos (hkey.mpr hk), table]
      · next hk => rw [if_neg (mt hkey.mp hk), table, ih h.2]
  | dir e hdr sub rest _ ih =>
      have hkey : Directory.hasKey k e = true ↔ e.key = k := by
        simp [Directory.hasKey, h.1.1]
      rw [erase, table, updateFirst]
      split
      · next hk => rw [if_pos (hkey.mpr hk), table]
      · next hk => rw [if_neg (mt hkey.mp hk), table, ih h.2.2]

theorem tidy_erase {es : Entries} (h : es.Tidy) (k : Key) :
    (es.erase k).Tidy := by
  induction es with
  | nil => trivial
  | free e rest ih => exact ⟨h.1, ih h.2⟩
  | file e hdr rest ih =>
      rw [erase]
      split
      · exact ⟨rfl, h.2⟩
      · exact ⟨h.1, ih h.2⟩
  | dir e hdr sub rest _ ih =>
      rw [erase]
      split
      · exact ⟨rfl, h.2.2⟩
      · exact ⟨h.1, h.2.1, ih h.2.2⟩

/-! ## Adding an object -/

section Insert
variable (name : List Byte) (hdr : HdrTree) (sub : Option Entries)

theorem table_insert {es : Entries} (h : es.Tidy) :
    (es.insert name hdr sub).table =
    updateFirst (!·.inUse) (fun e => e.occupy name hdr.sector sub.isSome)
      es.table := by
  induction es with
  | nil => rfl
  | free e rest ih =>
      rw [table, updateFirst, if_pos (by rw [h.1]; rfl)]
      cases sub with
      | none => rfl
      | some sub => rfl
  | file e h' rest ih =>
      rw [insert, table, table, updateFirst, if_neg (by simp [h.1.1]), ih h.2]
  | dir e h' s rest _ ih =>
      rw [insert, table, table, updateFirst, if_neg (by simp [h.1.1]), ih h.2.2]

theorem insert_full {es : Entries} (h : es.Tidy)
    (hfull : es.table.find? (!·.inUse) = none) :
    es.insert name hdr sub = es := by
  induction es with
  | nil => rfl
  | free e rest ih =>
      rw [table, List.find?_cons_of_pos (by rw [h.1]; rfl)] at hfull
      cases hfull
  | file e h' rest ih =>
      rw [table, List.find?_cons_of_neg (by simp [h.1.1])] at hfull
      rw [insert, ih h.2 hfull]
  | dir e h' s rest _ ih =>
      rw [table, List.find?_cons_of_neg (by simp [h.1.1])] at hfull
      rw [insert, ih h.2.2 hfull]

theorem objs_insert {es : Entries} {e : DirectoryEntry} (h : es.Tidy)
    (hfree : es.table.find? (!·.inUse) = some e) :
    (es.insert name hdr sub).objs.Perm (subtree hdr sub ++ es.objs) := by
  induction es with
  | nil => cases hfree
  | free e rest ih =>
      cases sub with
      | none => exact .refl _
      | some sub => exact .refl _
  | file e h' rest ih =>
      rw [table, List.find?_cons_of_neg (by simp [h.1.1])] at hfree
      exact ((ih h.2 hfree).cons _).trans (perm_pull _ [_] _ _)
  | dir e h' s rest _ ih =>
      rw [table, List.find?_cons_of_neg (by simp [h.1.1])] at hfree
      exact (((ih h.2.2 hfree).append_left _).cons _).trans
        (perm_pull _ (_ :: s.objs) _ _)

theorem tidy_insert {es : Entries} (h : es.Tidy)
    (hsub : ∀ s, sub = some s → s.Tidy) :
    (es.insert name hdr sub).Tidy := by
  induction es with
  | nil => trivial
  | free e rest ih =>
      cases sub with
      | none => exact ⟨⟨rfl, rfl, rfl⟩, h.2⟩
      | some s => exact ⟨⟨rfl, rfl, rfl⟩, hsub s rfl, h.2⟩
  | file e h' rest ih => exact ⟨h.1, ih h.2⟩
  | dir e h' s rest _ ih => exact ⟨h.1, h.2.1, ih h.2.2⟩

theorem lookup_insert {es : Entries} {e : DirectoryEntry} (h : es.Tidy)
    (hfree : es.table.find? (!·.inUse) = some e)
    (hnew : es.lookup (DirectoryEntry.keyOf name sub.isSome) = none) :
    (es.insert name hdr sub).lookup (DirectoryEntry.keyOf name sub.isSome) = some (hdr, sub) := by
  induction es with
  | nil => cases hfree
  | free e rest ih =>
      cases sub with
      | none => exact if_pos (DirectoryEntry.occupy_key e name _ _)
      | some s => exact if_pos (DirectoryEntry.occupy_key e name _ _)
  | file e h' rest ih =>
      rw [table, List.find?_cons_of_neg (by simp [h.1.1])] at hfree
      rw [lookup] at hnew
      rw [insert, lookup]
      split at hnew
      · cases hnew
      · next hk =>
          rw [if_neg hk]
          exact ih h.2 hfree hnew
  | dir e h' s rest _ ih =>
      rw [table, List.find?_cons_of_neg (by simp [h.1.1])] at hfree
      rw [lookup] at hnew
      rw [insert, lookup]
      split at hnew
      · cases hnew
      · next hk =>
          rw [if_neg hk]
          exact ih h.2.2 hfree hnew

theorem lookup_insert_of_ne {k : Key} (hk : k ≠ DirectoryEntry.keyOf name sub.isSome) (es : Entries) :
    (es.insert name hdr sub).lookup k = es.lookup k := by
  induction es with
  | nil => rfl
  | free e rest ih =>
      cases sub with
      | none => exact if_neg fun heq => hk (heq.symm.trans (DirectoryEntry.occupy_key e name _ _))
      | some s => exact if_neg fun heq => hk (heq.symm.trans (DirectoryEntry.occupy_key e name _ _))
  | file e h' rest ih => rw [insert, lookup, lookup, ih]
  | dir e h' s rest _ ih => rw [insert, lookup, lookup, ih]

end Insert

end Entries

/-! ## Walking down -/

/-- A directory with its header. -/
structure Folder where
  hdr : HdrTree
  entries : Entries

namespace Folder

open Entries

/-- The directory itself and everything below it. -/
def objs (F : Folder) : List Obj :=
  ⟨F.hdr, some F.entries.table⟩ :: F.entries.objs

/-- The directory below `F` that a list of directory names leads to. -/
def get : List Key → Folder → Option Folder
  | [], F => some F
  | k :: ks, F => match F.entries.lookup k with
    | some (hdr, some sub) => get ks ⟨hdr, sub⟩
    | _ => none

end Folder

namespace Entries

/-- The content of the directory at a list of names becomes `new`. -/
def setAt (new : Entries) : List Key → Entries → Entries
  | [], _ => new
  | k :: ks, es => es.updateSub k (setAt new ks)

end Entries

namespace Folder

open Entries

/-- The content of the directory at a list of names becomes `new`. -/
def set (p : List Key) (new : Entries) (F : Folder) : Folder :=
  ⟨F.hdr, setAt new p F.entries⟩

theorem get_cons {k : Key} {ks : List Key} {F G : Folder}
    (h : F.get (k :: ks) = some G) :
    ∃ hdr sub, F.entries.lookup k = some (hdr, some sub) ∧
      get ks ⟨hdr, sub⟩ = some G := by
  rw [get] at h
  split at h
  · next hdr sub hk => exact ⟨hdr, sub, hk, h⟩
  · cases h

theorem get_cons_of {k : Key} {ks : List Key} {F : Folder} {hdr : HdrTree}
    {sub : Entries} (h : F.entries.lookup k = some (hdr, some sub)) :
    F.get (k :: ks) = get ks ⟨hdr, sub⟩ := by
  rw [get, h]

theorem get_append : ∀ (p r : List Key) {F G : Folder},
    F.get p = some G → F.get (p ++ r) = G.get r
  | [], r, F, G, h => by
      cases h
      rfl
  | k :: ks, r, F, G, h => by
      obtain ⟨hdr, sub, hk, hks⟩ := get_cons h
      rw [List.cons_append, get_cons_of hk]
      exact get_append ks r hks

theorem get_set : ∀ (p : List Key) {F G : Folder} (new : Entries),
    F.get p = some G → (F.set p new).get p = some ⟨G.hdr, new⟩
  | [], F, G, new, h => by
      cases h
      rfl
  | k :: ks, F, G, new, h => by
      obtain ⟨hdr, sub, hk, hks⟩ := get_cons h
      rw [get_cons_of (F := F.set (k :: ks) new) (lookup_updateSub hk _)]
      exact get_set ks new hks

theorem tidy_get : ∀ (p : List Key) {F G : Folder},
    F.entries.Tidy → F.get p = some G → G.entries.Tidy
  | [], F, G, ht, h => by
      cases h
      exact ht
  | k :: ks, F, G, ht, h => by
      obtain ⟨hdr, sub, hk, hks⟩ := get_cons h
      exact tidy_get ks (tidy_lookup ht hk) hks

theorem tidy_set {new : Entries} (hnew : new.Tidy) :
    ∀ (p : List Key) {F : Folder},
    F.entries.Tidy → (F.set p new).entries.Tidy
  | [], _, _ => hnew
  | _ :: ks, _, ht => tidy_updateSub ht _ fun sub hsub =>
      tidy_set hnew ks (F := ⟨⟨0, 0, .nil⟩, sub⟩) hsub

/-- Replacing the content of one directory: the objects outside it, `R`,
stay. -/
theorem objs_set : ∀ (p : List Key) {F G : Folder}, F.get p = some G →
    ∃ R, F.objs.Perm (⟨G.hdr, some G.entries.table⟩ :: (G.entries.objs ++ R)) ∧
      ∀ new, (F.set p new).objs.Perm
        (⟨G.hdr, some new.table⟩ :: (new.objs ++ R))
  | [], F, G, h => by
      cases h
      refine ⟨[], ?_, ?_⟩
      · rw [List.append_nil]
        exact .refl _
      · intro new
        rw [List.append_nil]
        exact .refl _
  | k :: ks, F, G, h => by
      obtain ⟨hdr, sub, hk, hks⟩ := get_cons h
      obtain ⟨R₁, hold₁, hnew₁⟩ := objs_updateSub hk
      obtain ⟨R₂, hold₂, hnew₂⟩ := objs_set ks hks
      -- the parent itself joins what stays
      let P : Obj := ⟨F.hdr, some F.entries.table⟩
      have hpull : ∀ (x : Obj) (l : List Obj),
          (P :: (x :: (l ++ R₂) ++ R₁)).Perm
          (x :: (l ++ (P :: (R₂ ++ R₁)))) := fun x l => by
        rw [List.cons_append, List.append_assoc]
        exact perm_pull x [P] l (R₂ ++ R₁)
      refine ⟨P :: (R₂ ++ R₁), ?_, ?_⟩
      · refine List.Perm.trans (.cons _ ?_) (hpull _ _)
        exact hold₁.trans (hold₂.append_right R₁)
      · intro new
        have htable : (F.set (k :: ks) new).entries.table = F.entries.table :=
          table_updateSub F.entries k _
        rw [objs, htable]
        refine List.Perm.trans (.cons _ ?_) (hpull _ _)
        exact (hnew₁ (setAt new ks)).trans ((hnew₂ new).append_right R₁)

theorem get_subperm {p : List Key} {F G : Folder} (h : F.get p = some G) :
    G.objs.Subperm F.objs := by
  obtain ⟨R, hold, _⟩ := objs_set p h
  exact (List.sublist_append_left G.objs R).subperm.trans hold.symm.subperm

theorem get_mem {p : List Key} {F G : Folder} (h : F.get p = some G) :
    ⟨G.hdr, some G.entries.table⟩ ∈ F.objs := (get_subperm h).subset (.head _)

end Folder

end EroikoBlue.MP4
