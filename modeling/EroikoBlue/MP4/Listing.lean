/-
# `MP4.Listing` — `FileSystem::List`

The walker of a path stops one component before the end.  `List` wants the last
directory too, so it appends a component "." to the path and prints the
directory the walker is in.  It does not ask whether the walk succeeded; it only
asserts that there is no directory ".".

Printing itself is right: a line for each entry in use (`list_ofTable`), and
with `-lr` for each entry below as well, a directory before its content
(`printFrom_eq`).  So `List` prints whatever directory the walk ends in
(`list_eq`).  On a path with a component that does not exist, that is not a
directory the path names: the component was passed over (`lists_named_iff`).

## Two meanings of the same output

What is printed is compared with the directory the path names, so a listing has
to be read backwards: `Listing.Shows` says of which entries a printed text is
the listing.  No line at all is right for an empty directory, which is why
`lists_named_iff` has to mention one: a path that does not resolve is listed
rightly when the directory the walk stopped in happens to be empty.  It also has
to mention a directory called ".", which the assertion takes for the component
that was appended.

`list_missing` is a root with one file and a path to nowhere: the file is
printed.
-/
import EroikoBlue.MP4.DirWalk
import EroikoBlue.MP4.Resolution

namespace EroikoBlue.MP4

open Bytes

/-! ## The operation -/

/-- What is printed, without and with `-lr`. -/
inductive Listing where
  | list (lines : List Directory.ListLine)
  | print (lines : List Directory.PrintLine)

/-- `tr.dir->Print()` or `tr.dir->List()`. -/
def Directory.listing (dir : Directory) (recursively : Bool) (d : Disk) :
    Except Fault Listing :=
  if recursively then do
    let lines ← dir.print d
    pure (.print lines)
  else do
    let lines ← dir.list
    pure (.list lines)

/-- `tr.exist`.  The constructor sets it only if the walk succeeds; before that
it is what the memory holds, `unset`. -/
def TraversePath.exist (tr : TraversePath) (unset : Bool) : Bool :=
  match tr.target with
  | some (_, exist) => exist
  | none => unset

/-- `'.'`. -/
abbrev dot : Byte := 46

namespace FileSystem

/-- The string `curDir`; an empty one has no last character. -/
def curDir (path : List Byte) : Except Fault (List Byte) :=
  match (cstr path).getLast? with
  | none => .error (.undefined "*curDir.rbegin()")
  | some c =>
      pure (cstr path ++ if c ≠ delimeter then [delimeter, dot] else [dot])

/-- `FileSystem::List`. -/
def list (fs : FileSystem) (path : List Byte) (recursively unset : Bool) :
    FsM Listing := do
  let curDir ← Outcome.lift (curDir path)
  let tr ← Outcome.reads (traversePath curDir IS_DIR fs.directoryFile)
  Outcome.lift
    (assertMsg (tr.exist unset = false) "Dummy directory should not exist!")
  let out ← Outcome.reads (tr.dir.listing recursively)
  tr.flush
  pure out

end FileSystem

/-! ## What `Print` prints -/

/-- The entries of a directory and of all below it, with their places in their
tables, from place `i` on. -/
def Entries.preorder : Entries → Nat → List (DirectoryEntry × Nat)
  | .nil, _ => []
  | .free _ rest, i => rest.preorder (i + 1)
  | .file e _ rest, i => (e, i) :: rest.preorder (i + 1)
  | .dir e _ sub rest, i => (e, i) :: (sub.preorder 0 ++ rest.preorder (i + 1))

namespace Directory

/-- The entry a line is about: kind, name, sector and place. -/
def PrintLine.entry? : PrintLine → Option (String × List Byte × Int × Nat)
  | .entry _ kind name sector ind => some (kind, name, sector, ind)
  | _ => none

/-- What is printed about an entry. -/
def shown : DirectoryEntry × Nat → String × List Byte × Int × Nat
  | (e, i) => (if e.isDir then " [D] name: " else " [F] name: ", cstr e.name,
        e.sector, i)

section Print
variable {sub : Nat → List Bool → Except Fault (List PrintLine)}
  {indent_list : List Bool}
  {e : DirectoryEntry} {i : Nat}

theorem printVisit_file (h : e.isDir = false) (cnt : Int) (out : List PrintLine)
    (last : Bool) :
    ∃ out', printVisit sub indent_list i e cnt (out,
        last) = .ok (out', IS_FILE) ∧
      out'.filterMap PrintLine.entry? =
        out.filterMap PrintLine.entry? ++ [shown (e, i)] := by
  rw [printVisit, h]
  refine ⟨_, rfl, ?_⟩
  rw [List.filterMap_append, shown, h]
  rfl

/-- At a directory, a line for it, and what is printed for the entries in it. -/
theorem printVisit_dir (h : e.isDir = true) {cnt : Int} {below : List PrintLine}
    (hsub : sub i (indent_list ++ [decide (cnt = 0)]) = .ok below)
    (out : List PrintLine) (last : Bool) :
    ∃ out', printVisit sub indent_list i e cnt (out,
        last) = .ok (out', IS_DIR) ∧
      out'.filterMap PrintLine.entry? =
        out.filterMap PrintLine.entry? ++ shown (e, i) :: below.filterMap
          PrintLine.entry? := by
  rw [printVisit, h, if_pos rfl, hsub, Outcome.ok_bind]
  refine ⟨_, rfl, ?_⟩
  -- the lines above and below are gaps
  have habove : (if last = IS_FILE then [PrintLine.gap (frontProto indent_list)]
      else []).filterMap
      PrintLine.entry? = [] := by split <;> rfl
  have hafter : (if decide (cnt = 0) = true then []
      else [PrintLine.gap (frontProto indent_list)]).filterMap
      PrintLine.entry? = [] := by split <;> rfl
  rw [List.filterMap_append, List.filterMap_append, List.filterMap_append,
    habove, hafter, List.append_nil,
    List.append_nil, shown, h]
  rfl

/-- The loop prints what is behind the entries from `i` on, if `print` does so
for the directories there. -/
theorem visitAll_printVisit {d : Disk} {table : List DirectoryEntry}
    {fuel : Nat} {print : Directory → List Bool → Except Fault (List PrintLine)}
    (hprint : ∀ (es : Entries) (indent_list : List Bool),
      es.depth < fuel → es.Tidy →
      (∀ o ∈ es.objs, o.Holds d) →
        ∃ lines, print (.ofTable es.table) indent_list = .ok lines ∧
        lines.filterMap PrintLine.entry? = (es.preorder 0).map shown)
    (hsub : ∀ i indent_list, sub i indent_list = do
      let sub ← (Directory.ofTable table).subDirectory i d
      print sub indent_list) :
    ∀ {es : Entries} {i : Nat} (out : List PrintLine) (last : Bool),
      table.drop i = es.table →
      es.depth ≤ fuel → es.Tidy → (∀ o ∈ es.objs, o.Holds d) →
      ∃ out' last', visitAll (printVisit sub indent_list) (used i es.table)
        (out, last) = .ok (out', last') ∧
        out'.filterMap PrintLine.entry? =
          out.filterMap PrintLine.entry? ++ (es.preorder i).map shown := by
  intro es
  induction es with
  | nil =>
      intro i out last _ _ _ _
      exact ⟨out, last, rfl, (List.append_nil _).symm⟩
  | free e rest ih =>
      intro i out last hdrop hdepth ht hheld
      rw [Entries.table, used_of_free i ht.1]
      exact ih out last (drop_cons hdrop e).2 hdepth ht.2 hheld
  | file e hdr rest ih =>
      intro i out last hdrop hdepth ht hheld
      obtain ⟨⟨huse, hkind, _⟩, hrest⟩ := ht
      rw [Entries.table, used_of_inUse i huse, visitAll]
      obtain ⟨out₁, hvisit, hshown⟩ := printVisit_file hkind _ out last
      obtain ⟨out', last', hloop, hrestshown⟩ := ih out₁ IS_FILE
        (drop_cons hdrop e).2 hdepth hrest
        fun o ho => hheld o (.tail _ ho)
      refine ⟨out', last', ?_, ?_⟩
      · rw [hvisit, Outcome.ok_bind]
        exact hloop
      · rw [hrestshown, hshown, Entries.preorder, List.map_cons,
          List.append_assoc]
        rfl
  | dir e hdr sub' rest _ ih =>
      intro i out last hdrop hdepth ht hheld
      obtain ⟨⟨huse, hkind, hsec⟩, htsub, hrest⟩ := ht
      obtain ⟨hget, hdrop'⟩ := drop_cons hdrop .blank
      simp only [Entries.depth] at hdepth
      rw [Entries.table, used_of_inUse i huse, visitAll]
      obtain ⟨cnt, hcnt⟩ : ∃ cnt : Int,
        ((used (i + 1) rest.table).length : Int) = cnt := ⟨_, rfl⟩
      rw [hcnt]
      -- what is in the directory
      have hsubdir :=
        subDirectory_eq (d := d) (by rw [hget, hsec]) (hheld _ (.head _))
      obtain ⟨below, hbelow, hbelowshown⟩ := hprint sub'
        (indent_list ++ [decide (cnt = 0)]) (by omega) htsub
        fun o ho => hheld o (.tail _ (List.mem_append_left _ ho))
      have hcall : sub i (indent_list ++ [decide (cnt = 0)]) = .ok below := by
        rw [hsub, hsubdir, Outcome.ok_bind]
        exact hbelow
      obtain ⟨out₁, hvisit, hshown⟩ := printVisit_dir hkind hcall out last
      -- what follows it
      obtain ⟨out', last', hloop, hrestshown⟩ := ih out₁ IS_DIR hdrop'
        (by omega) hrest
        fun o ho => hheld o (.tail _ (List.mem_append_right _ ho))
      refine ⟨out', last', ?_, ?_⟩
      · rw [hvisit, Outcome.ok_bind]
        exact hloop
      · rw [hrestshown, hshown, hbelowshown, Entries.preorder, List.map_cons,
          List.map_append,
          List.append_assoc]
        rfl

end Print

/-- `Print` prints every entry below the directory once. -/
theorem printFrom_eq {d : Disk} :
    ∀ {fuel : Nat} {es : Entries} (indent_list : List Bool),
    es.depth < fuel → es.Tidy → (∀ o ∈ es.objs, o.Holds d) →
    ∃ lines, printFrom d fuel (.ofTable es.table) indent_list = .ok lines ∧
      lines.filterMap PrintLine.entry? = (es.preorder 0).map shown
  | 0, _, _, hdepth, _, _ => absurd hdepth (Nat.not_lt_zero _)
  | fuel + 1, es, indent_list, hdepth, ht, hheld => by
      obtain ⟨out, last, hrun, hshown⟩ := visitAll_printVisit
        (fun _ indent_list' => printFrom_eq indent_list')
          (fun _ _ => rfl) [] IS_DIR
        (show es.table.drop 0 = es.table from rfl)
          (Nat.lt_succ_iff.mp hdepth) ht hheld
      refine ⟨out, ?_, hshown⟩
      rw [(visits_of_count rfl d).print]
      exact (congrArg (· >>= _) hrun).trans rfl

end Directory

/-! ## What `List` prints -/

/-- The listing is that of a directory with these entries: the lines of those in
use, or with `-lr` what is said about them and about all entries below. -/
def Listing.Shows (es : Entries) : Listing → Prop
  | .list lines => lines = Directory.listLines (es.table.filter (·.inUse))
  | .print lines => lines.filterMap Directory.PrintLine.entry? =
        (es.preorder 0).map Directory.shown

theorem listing_eq {d : Disk} {es : Entries} (hdepth : es.depth < NumSectors)
    (ht : es.Tidy) (hheld : ∀ o ∈ es.objs, o.Holds d) (recursively : Bool) :
    ∃ out, (Directory.ofTable es.table).listing recursively d = .ok out ∧
      out.Shows es := by
  cases recursively with
  | false =>
      refine ⟨.list _, ?_, rfl⟩
      rw [Directory.listing, Directory.list_ofTable]
      rfl
  | true =>
      obtain ⟨lines, hrun, hshown⟩ := Directory.printFrom_eq [] hdepth ht hheld
      refine ⟨.print (.title :: lines), ?_, hshown⟩
      rw [Directory.listing, Directory.print, hrun]
      rfl

/-- No entry is in use. -/
def Entries.Unused (es : Entries) : Prop := ∀ e ∈ es.table, e.inUse = false

theorem Entries.preorder_eq_nil {es : Entries} (ht : es.Tidy) :
    ∀ i, es.preorder i = [] ↔ es.Unused := by
  induction es with
  | nil => exact fun i => iff_of_true rfl nofun
  | free e rest ih =>
      intro i
      refine (ih ht.2 (i + 1)).trans ?_
      rw [Unused, Unused, table, List.forall_mem_cons, and_iff_right ht.1]
  | file e hdr rest ih =>
      intro i
      refine iff_of_false (List.cons_ne_nil _ _) fun h => ?_
      exact Bool.false_ne_true ((h e (.head _)).symm.trans ht.1.1)
  | dir e hdr sub rest _ ih =>
      intro i
      refine iff_of_false (List.cons_ne_nil _ _) fun h => ?_
      exact Bool.false_ne_true ((h e (.head _)).symm.trans ht.1.1)

/-- A listing shows no entry just when there is none in use. -/
theorem Listing.Shows.nil_iff {es : Entries} {out : Listing} (ht : es.Tidy)
    (h : out.Shows es) :
    out.Shows .nil ↔ es.Unused := by
  cases out with
  | list lines =>
      have hlines : ∀ l, Directory.listLines l = [] ↔ l = [] := by
        intro l
        cases l with
        | nil => exact iff_of_true rfl rfl
        | cons e es =>
            exact iff_of_false (List.cons_ne_nil _ _) (List.cons_ne_nil _ _)
      cases h
      refine (hlines _).trans (List.filter_eq_nil_iff.trans ?_)
      exact forall₂_congr fun e _ => iff_of_eq (Bool.not_eq_true _)
  | print lines =>
      rw [Shows] at h
      rw [Shows, h, ← Entries.preorder_eq_nil ht 0]
      exact List.map_eq_nil_iff

/-! ## On a volume -/

/-- The ways of writing a path to a directory, with and without a delimiter at
the end. -/
def IsPathTo (comps : List (List Byte)) (path : List Byte) : Prop :=
  path = joinPath comps ++ [delimeter] ∨ comps ≠ [] ∧ path = joinPath comps

theorem joinPath_dot (comps : List (List Byte)) :
    joinPath (comps ++ [[dot]]) = joinPath comps ++ [delimeter, dot] := by
  rw [joinPath, List.flatMap_append, List.flatMap_singleton]
  rfl

theorem curDir_eq {comps : List (List Byte)} {path : List Byte}
    (h : ∀ c ∈ comps, IsComponent c) (hpath : IsPathTo comps path) :
    FileSystem.curDir path = .ok (joinPath (comps ++ [[dot]])) := by
  have h0 := joinPath_no_zero h
  rw [joinPath_dot]
  rcases hpath with rfl | ⟨hne, rfl⟩
  · have h0' : (0 : Byte) ∉ joinPath comps ++ [delimeter] := by
      rw [List.mem_append, not_or]
      exact ⟨h0, by decide⟩
    rw [FileSystem.curDir, cstr_eq_self h0', List.getLast?_concat]
    exact congrArg Except.ok (List.append_assoc _ [delimeter] [dot])
  · -- the last character is one of the last component
    obtain ⟨cs, c, rfl⟩ := (List.eq_nil_or_concat' comps).resolve_left hne
    have hc := h c (List.mem_append_right cs (.head _))
    obtain ⟨c', b, rfl⟩ := (List.eq_nil_or_concat' c).resolve_left hc.ne_nil
    have hb : b ≠ delimeter := by
      rintro rfl
      exact hc.no_delimeter (List.mem_append_right c' (.head _))
    have hlast : (joinPath (cs ++ [c' ++ [b]])).getLast? = some b := by
      rw [joinPath, List.flatMap_append, List.flatMap_singleton,
        ← List.cons_append, ← List.append_assoc]
      exact List.getLast?_concat ..
    rw [FileSystem.curDir, cstr_eq_self h0, hlast]
    simp only
    rw [if_pos hb]
    rfl

section List
variable {d : Disk} {v : Volume} {fs : FileSystem} {comps : List (List Byte)}
  {path : List Byte}

/-- What `List` asserts not to be: the directory "." in the directory the path
names. -/
def Volume.dummyExists (v : Volume) (comps : List (List Byte))
    (unset : Bool) : Bool :=
  match v.root.get (dirKeys comps) with
  | some G => (G.entries.lookup (DirectoryEntry.keyOf [dot] IS_DIR)).isSome
  | none => unset

/-- `List` prints the directory the walk ends in, or stops at its assertion. -/
theorem list_eq (hon : v.On d) (hfs : fs.Mounts v)
    (h : ∀ c ∈ comps, IsComponent c) (hpath : IsPathTo comps path)
    (recursively unset : Bool) :
    ∃ out, out.Shows (v.root.reach (dirKeys comps)).entries ∧
      fs.list path recursively unset d =
      if v.dummyExists comps unset = true then
        .error (.assertFailed "Dummy directory should not exist!") d
      else .ok out d := by
  have hdot : ∀ c ∈ comps ++ [[dot]], IsComponent c := by
    intro c hc
    rcases List.mem_append.mp hc with hc | hc
    · exact h c hc
    · cases List.mem_singleton.mp hc
      exact isComponent_letter (by decide) (by decide)
  obtain ⟨q, tr, hrun, hat, htarget⟩ :=
    traversePath_joinPath hon hfs.root hdot (by decide) IS_DIR
  have hexist : tr.exist unset = v.dummyExists comps unset := by
    rw [TraversePath.exist, htarget, Volume.dummyExists]
    cases v.root.get (dirKeys comps) <;> rfl
  -- the directory the walk ends in is printed
  have hsub := Folder.get_subperm hat.get
  have hdepth : (v.root.reach (dirKeys comps)).entries.depth < NumSectors :=
    Nat.lt_of_lt_of_le (Nat.lt_succ_of_le (Entries.depth_le _))
      (hsub.length_le.trans hon.length_objs_le)
  obtain ⟨out, hout, hshows⟩ := listing_eq hdepth
    (Folder.tidy_get q hon.tidy hat.get)
    (fun o ho => hon.objs o (hsub.subset (.tail _ ho))) recursively
  rw [← hat.dir] at hout
  refine ⟨out, hshows, ?_⟩
  rw [FileSystem.list,
    Outcome.bind_of_ok (Outcome.lift_of_ok (curDir_eq h hpath)),
    Outcome.bind_of_ok (Outcome.reads_of_ok hrun), hexist]
  cases hdummy : v.dummyExists comps unset with
  | true =>
      rw [if_pos rfl]
      exact Outcome.bind_of_error
        (Outcome.lift_of_error (assertMsg_neg (Bool.noConfusion ·)))
  | false =>
      rw [if_neg Bool.false_ne_true,
        Outcome.bind_of_ok (Outcome.lift_of_ok (assertMsg_pos rfl)),
        Outcome.bind_of_ok (Outcome.reads_of_ok hout), Outcome.bind_of_ok
          (hat.flush_eq hon)]
      rfl

/-- What is asked of `List`: the entries of the directory that the path names,
and none at all if a component names no directory. -/
structure ListsNamed (v : Volume) (comps : List (List Byte))
    (result : EStateM.Result Fault Disk Listing) : Prop where
  named : ∀ G, v.root.get (dirKeys comps) = some G →
    ∃ out d', result = .ok out d' ∧ out.Shows G.entries
  missing : v.root.get (dirKeys comps) = none → ∀ out d', result = .ok out d' →
    out.Shows .nil

/-- `List` does that unless there is a directory "." in the one named, which it
takes for its own component; or a component does not exist, there are entries in
the directory the walk ends in, and the flag nobody set does not happen to stop
the program. -/
theorem lists_named_iff (hon : v.On d) (hfs : fs.Mounts v)
    (h : ∀ c ∈ comps, IsComponent c) (hpath : IsPathTo comps path)
    (recursively unset : Bool) :
    ListsNamed v comps (fs.list path recursively unset d) ↔
      (∀ G, v.root.get (dirKeys comps) = some G →
        G.entries.lookup (DirectoryEntry.keyOf [dot] IS_DIR) = none) ∧
      (v.root.get (dirKeys comps) = none →
        unset = true ∨ (v.root.reach (dirKeys comps)).entries.Unused) := by
  obtain ⟨out, hshows, hrun⟩ := list_eq hon hfs h hpath recursively unset
  rw [hrun]
  cases hG : v.root.get (dirKeys comps) with
  | some G =>
      have hdummy : v.dummyExists comps unset =
          (G.entries.lookup (DirectoryEntry.keyOf [dot] IS_DIR)).isSome := by
        rw [Volume.dummyExists, hG]
      have hreach := Folder.reach_of_get _ hG
      rw [hreach] at hshows
      rw [hdummy]
      cases hk : G.entries.lookup (DirectoryEntry.keyOf [dot] IS_DIR) with
      | none =>
          refine iff_of_true ⟨?_, fun hnone => nomatch hG.symm.trans hnone⟩ ⟨?_,
            nofun⟩
          · intro G' hG'
            cases hG.symm.trans hG'
            exact ⟨out, d, rfl, hshows⟩
          · intro G' hG'
            cases hG'
            exact hk
      | some found =>
          refine iff_of_false ?_ ?_
          · intro hlaw
            obtain ⟨out', d', hout, _⟩ := hlaw.named G hG
            cases hout
          · intro hcond
            cases hk.symm.trans (hcond.1 G rfl)
  | none =>
      have hdummy : v.dummyExists comps unset = unset := by
        rw [Volume.dummyExists, hG]
      have hnamed : ∀ G, v.root.get (dirKeys comps) ≠ some G := fun G hG' => nomatch hG.symm.trans hG'
      rw [hdummy]
      cases unset with
      | true => exact iff_of_true ⟨fun G hG' => absurd hG' (hnamed G), nofun⟩ ⟨nofun, fun _ => .inl rfl⟩
      | false =>
          obtain ⟨q, hq⟩ := Folder.get_reach (dirKeys comps) v.root
          have hnil := hshows.nil_iff (Folder.tidy_get q hon.tidy hq)
          constructor
          · intro hlaw
            exact ⟨nofun, fun _ => .inr (hnil.mp (hlaw.missing hG out d rfl))⟩
          · intro hcond
            refine ⟨fun G hG' => absurd hG' (hnamed G),
              fun _ out' d' hout => ?_⟩
            cases hout
            exact hnil.mpr ((hcond.2 rfl).resolve_left Bool.false_ne_true)

end List

/-- The root of a disk with the one file "/f". -/
theorem lists_named_iff_root : ∃ s v, Reachable s ∧ Inv s v ∧
    ListsNamed v [] (s.fs.list [delimeter] false false s.disk) := by
  obtain ⟨s, v, t, h, hinv, hes, _⟩ :=
    formatted_one (show 0 < 1 by decide) (by decide)
  have hcomp : ∀ c ∈ ([] : List (List Byte)), IsComponent c := nofun
  refine ⟨s, v, h, hinv, (lists_named_iff hinv.on hinv.mounts hcomp
    (.inl rfl) false false).mpr ⟨?_, nofun⟩⟩
  intro G hG
  cases hG
  have hne : DirectoryEntry.keyOf [dot] IS_DIR ≠
      DirectoryEntry.keyOf [102] (none : Option Entries).isSome := by
    decide
  rw [hes, Entries.lookup_insert_of_ne _ _ _ hne, Entries.lookup_empty]

theorem Entries.lookup_of_unused {es : Entries} (ht : es.Tidy)
    (h : es.Unused) (k : Key) :
    es.lookup k = none := by
  refine (Entries.find?_isNone ht).mp (List.find?_eq_none.mpr fun e he => ?_)
  rw [Directory.hasKey, h e he, Bool.false_and]
  exact Bool.false_ne_true

/-- On that disk "/g" is neither a file nor a directory, and `List` prints
"f". -/
theorem list_missing : ∃ s v out, Reachable s ∧ Inv s v ∧
    (∀ isDir, v.root.entries.lookup (DirectoryEntry.keyOf [103] isDir) = none) ∧
      s.fs.list (joinPath [[103]]) false false s.disk = .ok out s.disk ∧
      ¬ out.Shows .nil ∧
      ¬ ListsNamed v [[103]]
        (s.fs.list (joinPath [[103]]) false false s.disk) := by
  obtain ⟨s, v, t, h, hinv, hes, _⟩ :=
    formatted_one (show 0 < 1 by decide) (by decide)
  have hnew : ∀ isDir,
      v.root.entries.lookup (DirectoryEntry.keyOf [103] isDir) = none := by
    intro isDir
    have hne : DirectoryEntry.keyOf [103] isDir ≠
        DirectoryEntry.keyOf [102] (none : Option Entries).isSome := by
      cases isDir <;> decide
    rw [hes, Entries.lookup_insert_of_ne _ _ _ hne, Entries.lookup_empty]
  have hcomp : ∀ c ∈ [[103]], IsComponent c := by
    intro c hc
    cases List.mem_singleton.mp hc
    exact isComponent_letter (by decide) (by decide)
  obtain ⟨out, hshows, hrun⟩ := list_eq hinv.on hinv.mounts hcomp
    (.inr ⟨List.cons_ne_nil _ _, rfl⟩) false false
  have hget : v.root.get (dirKeys [[103]]) = none :=
    Folder.get_skip (hnew IS_DIR)
  have hreach : v.root.reach (dirKeys [[103]]) = v.root :=
    Folder.reach_skip (hnew IS_DIR)
  rw [Volume.dummyExists, hget, if_neg Bool.false_ne_true] at hrun
  rw [hreach] at hshows
  have hnil : ¬ out.Shows .nil := by
    intro hnil
    have hunused := (hshows.nil_iff hinv.on.tidy).mp hnil
    obtain ⟨e, he⟩ := Option.isSome_iff_exists.mp
      (Entries.find?_empty NumDirEntries (by decide))
    have hfound := Entries.lookup_insert [102] t none (Entries.tidy_empty _) he
      (Entries.lookup_empty _ _)
    rw [← hes, Entries.lookup_of_unused hinv.on.tidy hunused] at hfound
    cases hfound
  exact ⟨s, v, out, h, hinv, hnew, hrun, hnil,
    fun hlaw => hnil (hlaw.missing hget out _ hrun)⟩

end EroikoBlue.MP4
