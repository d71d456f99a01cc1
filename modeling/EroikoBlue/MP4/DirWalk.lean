/-
# `MP4.DirWalk` — the loops of `directory.cc` that stop on the count

`Apply`, `List` and `Print` walk the table from its first entry until they have
seen as many entries in use as `count` says, and never look at the size of the
table.  The three loops are one, `visitLoop`, with a body of their own.  When
the count is right it visits each entry in use once, in order, and stops before
the end of the table (`visitLoop_eq`); the body learns how many are still to
come.

The count is a field of the object and not of the file.  `FetchFrom` sets it
anew, so for a directory read from the disk it is right; `Visits` says what the
three loops do then, whatever else is in the table, and `visits_of_count` is the
proof for all of them.
-/
import EroikoBlue.MP4.Directory

namespace EroikoBlue.MP4

open Bytes

namespace Directory

/-! ## The loop -/

section Loop
variable {σ : Type}

/-- From entry `i` on, with `cnt` entries in use left to visit:
`for (int _cnt = count; _cnt; i++) if (table[i].inUse) { --_cnt; … }`. -/
def visitLoop (visit : Nat → DirectoryEntry → Int → σ → Except Fault σ) :
    List DirectoryEntry → Nat → Int → σ → Except Fault σ
  | table, i, cnt, object =>
    if cnt = 0 then pure object
    else match table with
    | [] => .error (.undefined "table[i]")
    | e :: table =>
      if e.inUse then do
        let object ← visit i e (cnt - 1) object
        visitLoop visit table (i + 1) (cnt - 1) object
      else visitLoop visit table (i + 1) cnt object

/-- The entries of a list one by one, with the number of those that follow. -/
def visitAll (visit : Nat → DirectoryEntry → Int → σ → Except Fault σ) :
    List (DirectoryEntry × Nat) → σ → Except Fault σ
  | [], object => pure object
  | (e, i) :: rest, object => do
    let object ← visit i e rest.length object
    visitAll visit rest object

/-- The entries in use, with their places in the table. -/
def used (i : Nat) (table : List DirectoryEntry) :
    List (DirectoryEntry × Nat) :=
  (table.zipIdx i).filter (·.1.inUse)

theorem used_cons (i : Nat) (e : DirectoryEntry) (table : List DirectoryEntry) :
    used i (e :: table) = if e.inUse then (e, i) :: used (i + 1) table
      else used (i + 1) table := by
  rw [used, List.zipIdx_cons, List.filter_cons]
  rfl

theorem used_of_free (i : Nat) {e : DirectoryEntry} (h : e.inUse = false)
    (table : List DirectoryEntry) :
    used i (e :: table) = used (i + 1) table := by
  rw [used_cons, h, if_neg Bool.false_ne_true]

theorem used_of_inUse (i : Nat) {e : DirectoryEntry} (h : e.inUse = true)
    (table : List DirectoryEntry) :
    used i (e :: table) = (e, i) :: used (i + 1) table := by
  rw [used_cons, h, if_pos rfl]

theorem length_used (i : Nat) (table : List DirectoryEntry) :
    (used i table).length = table.countP (·.inUse) := by
  induction table generalizing i with
  | nil => rfl
  | cons e table ih =>
      rw [used_cons, List.countP_cons, ← ih (i + 1)]
      split <;> rfl

theorem map_used (i : Nat) (table : List DirectoryEntry) :
    (used i table).map Prod.fst = table.filter (·.inUse) := by
  induction table generalizing i with
  | nil => rfl
  | cons e table ih =>
      rw [used_cons, List.filter_cons, ← ih (i + 1)]
      split <;> rfl

section
variable (visit : Nat → DirectoryEntry → Int → σ → Except Fault σ)
  {e : DirectoryEntry} {table : List DirectoryEntry}
  {i : Nat}

theorem visitLoop_done (object : σ) : visitLoop visit table i 0 object =
    .ok object := by
  rw [visitLoop.eq_def]
  exact if_pos rfl

theorem visitLoop_free (h : e.inUse = false) (n : Nat) (object : σ) :
    visitLoop visit (e :: table) i (n + 1 : Nat) object =
      visitLoop visit table (i + 1) (n + 1 : Nat) object := by
  rw [visitLoop.eq_def]
  simp only [h, Bool.false_eq_true, if_false]
  exact if_neg (Int.natCast_ne_zero.mpr (Nat.succ_ne_zero n))

theorem visitLoop_used (h : e.inUse = true) (n : Nat) (object : σ) :
    visitLoop visit (e :: table) i (n + 1 : Nat) object = (do
      let object ← visit i e n object
      visitLoop visit table (i + 1) n object) := by
  rw [visitLoop.eq_def]
  simp only [h, if_true, Int.natCast_succ, Int.add_sub_cancel]
  exact if_neg (Int.natCast_ne_zero.mpr (Nat.succ_ne_zero n))

/-- With the right count the loop visits the entries in use, each once. -/
theorem visitLoop_eq : ∀ (table : List DirectoryEntry) (i : Nat) (object : σ),
    visitLoop visit table i (table.countP (·.inUse)) object =
      visitAll visit (used i table) object := by
  intro table
  induction table with
  | nil => exact fun i object => visitLoop_done visit object
  | cons e table ih =>
      intro i object
      rw [List.countP_cons]
      cases huse : e.inUse with
      | true =>
          rw [used_of_inUse i huse, if_pos rfl, visitLoop_used visit huse,
            visitAll, length_used]
          exact bind_congr fun object' => ih (i + 1) object'
      | false =>
          rw [used_of_free i huse, if_neg Bool.false_ne_true, Nat.add_zero, ← ih (i + 1) object]
          cases table.countP (·.inUse) with
          | zero => exact (visitLoop_done visit object).trans (visitLoop_done visit object).symm
          | succ n => exact visitLoop_free visit huse n object

end

end Loop

/-! ## `Apply` -/

section Apply
variable {σ : Type}

/-- The body of `Apply`. -/
def applyVisit (callbackFile callbackDir : Int → σ → Except Fault σ)
    (sub : Nat → σ → Except Fault σ) (i : Nat) (e : DirectoryEntry) (_ : Int)
    (object : σ) : Except Fault σ :=
  if e.isDir then do
    let object ← sub i object
    callbackDir e.sector object
  else callbackFile e.sector object

theorem applyLoop_visit (callbackFile callbackDir : Int → σ → Except Fault σ)
    (sub : Nat → σ → Except Fault σ) (table : List DirectoryEntry) :
    ∀ (i : Nat) (cnt : Int) (object : σ),
      applyLoop callbackFile callbackDir sub table i cnt object =
        visitLoop (applyVisit callbackFile callbackDir sub) table i cnt
          object := by
  induction table with
  | nil =>
      intro i cnt object
      rw [applyLoop.eq_def, visitLoop.eq_def]
  | cons e table ih =>
      intro i cnt object
      rw [applyLoop.eq_def, visitLoop.eq_def]
      simp only [ih, applyVisit]
      split
      · rfl
      split
      · split <;> simp only [bind_assoc]
      · rfl

end Apply

/-! ## `List` -/

/-- A line of output: what is printed before the name, and the name. -/
structure ListLine where
  front : String
  name : List Byte
  deriving DecidableEq, Repr

/-- The line for an entry with `cnt` more to come. -/
def listLine (e : DirectoryEntry) (cnt : Int) : ListLine where
  front := (if cnt ≠ 0 then "├" else "└") ++ "───[" ++ (if e.isDir then "D"
    else "F") ++ "] "
  name := cstr e.name

/-- The body of `List`. -/
def listVisit (_ : Nat) (e : DirectoryEntry) (cnt : Int) (out : List ListLine) :
    Except Fault (List ListLine) :=
  pure (out ++ [listLine e cnt])

/-- `Directory::List`. -/
def list (dir : Directory) : Except Fault (List ListLine) :=
  visitLoop listVisit dir.table 0 dir.count []

/-- The lines for some entries. -/
def listLines : List DirectoryEntry → List ListLine
  | [] => []
  | e :: es => listLine e es.length :: listLines es

theorem visitAll_listVisit :
    ∀ (entries : List (DirectoryEntry × Nat)) (out : List ListLine),
    visitAll listVisit entries out =
      .ok (out ++ listLines (entries.map Prod.fst))
  | [], out => congrArg Except.ok (List.append_nil out).symm
  | (e, i) :: rest, out => by
      have hlen : (rest.map Prod.fst).length = rest.length := List.length_map ..
      rw [visitAll, listVisit, Outcome.pure_eq_ok, Outcome.ok_bind,
        visitAll_listVisit rest, List.map_cons,
        listLines, hlen, List.append_assoc]
      rfl

/-- `List` prints a line for each entry in use. -/
theorem list_ofTable (table : List DirectoryEntry) :
    (ofTable table).list = .ok (listLines (table.filter (·.inUse))) := by
  have hlist : (ofTable table).list = visitAll listVisit (used 0 table) [] :=
    visitLoop_eq listVisit table 0 []
  rw [hlist, visitAll_listVisit, List.nil_append, map_used]

/-! ## `Print` -/

inductive PrintLine where
  /-- `"Directory structure:"`. -/
  | title
  /-- An indentation followed by `"│"`. -/
  | gap (front_proto : String)
  | entry (front kind : String) (name : List Byte) (sector : Int) (ind : Nat)
  deriving DecidableEq, Repr

/-- The indentation of a directory, whose ancestors are last in theirs or
not. -/
def frontProto (indent_list : List Bool) : String :=
  indent_list.foldl (fun front_proto last => front_proto ++ if last then
    "      " else "│     ") ""

/-- The body of `Print`; `last` is the kind of the entry before. -/
def printVisit (sub : Nat → List Bool → Except Fault (List PrintLine))
    (indent_list : List Bool) (i : Nat) (e : DirectoryEntry) (cnt : Int) :
    List PrintLine × Bool → Except Fault (List PrintLine × Bool)
  | (out, last) => do
    let last_one : Bool := cnt = 0
    let front :=
      frontProto indent_list ++ (if last_one then "└" else "├") ++ "───"
    if e.isDir then do
      let above :=
        if last = IS_FILE then [.gap (frontProto indent_list)] else []
      let below ← sub i (indent_list ++ [last_one])
      let after := if last_one then [] else [.gap (frontProto indent_list)]
      pure (out ++ above ++ .entry front " [D] name: " (cstr e.name) e.sector
        i :: below ++ after, IS_DIR)
    else pure (out ++ [.entry front " [F] name: " (cstr e.name) e.sector i],
      IS_FILE)

/-- `Directory::Print(indent_list)`, at most `fuel` directories deep. -/
def printFrom (d : Disk) : Nat → Directory → List Bool →
    Except Fault (List PrintLine)
  | 0, _, _ => .error .diverges
  | fuel + 1, dir, indent_list => do
    let (out, _) ← visitLoop
      (printVisit (fun i indent_list => do
        let sub ← dir.subDirectory i d
        printFrom d fuel sub indent_list) indent_list)
      dir.table 0 dir.count ([], IS_DIR)
    pure out

/-- `Directory::Print()`.  As in `Apply`, `NumSectors` levels are enough. -/
def print (dir : Directory) (d : Disk) : Except Fault (List PrintLine) := do
  let out ← printFrom d NumSectors dir []
  pure (.title :: out)

/-! ## What the three visit -/

/-- The three loops visit the entries in use of the table, each once. -/
structure Visits (dir : Directory) (d : Disk) : Prop where
  apply : ∀ {σ : Type} (callbackFile callbackDir : Int → σ → Except Fault σ)
    (fuel : Nat) (object : σ),
    dir.apply callbackFile callbackDir d (fuel + 1) object =
      visitAll (applyVisit callbackFile callbackDir fun i object => do
        let sub ← dir.subDirectory i d
        sub.apply callbackFile callbackDir d fuel object)
          (used 0 dir.table) object
  list : dir.list = visitAll listVisit (used 0 dir.table) []
  print : ∀ (fuel : Nat) (indent_list : List Bool),
      printFrom d (fuel + 1) dir indent_list = do
    let (out, _) ← visitAll (printVisit (fun i indent_list => do
      let sub ← dir.subDirectory i d
      printFrom d fuel sub indent_list) indent_list) (used 0 dir.table)
        ([], IS_DIR)
    pure out

theorem visits_of_count {dir : Directory}
    (h : dir.count = dir.table.countP (·.inUse)) (d : Disk) :
    dir.Visits d where
  apply := by
    intro σ callbackFile callbackDir fuel object
    rw [Directory.apply, applyLoop_visit, h, visitLoop_eq]
  list := by rw [Directory.list, h, visitLoop_eq]
  print := by
    intro fuel indent_list
    rw [printFrom, h, visitLoop_eq]

end Directory

end EroikoBlue.MP4
